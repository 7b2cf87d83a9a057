import LexCalc.Proofs.Token.Joining
import LexCalc.Proofs.Token.Simulation
import LexCalc.Proofs.Token.Tiling

/-! Reading can be taken up again at the end of any token: what is left of the text alone decides
what is read, and the bytes before it only move it. -/
namespace LexCalc

namespace Token

/-- Tokens that have been moved are logged by the same words, with their new starts. -/
theorem log_moved (k : Nat) (ts : List Token) :
    ∃ places : List (String × Nat),
      (∀ q ∈ places, q.1 = "unterminated string literal starting at byte " ∨
        q.1 = "unterminated block comment starting at byte ") ∧
      ts.flatMap log = places.map (fun q => .debug (q.1 ++ toString q.2)) ∧
      (ts.map (moved k)).flatMap log =
        places.map (fun q => .debug (q.1 ++ toString (k + q.2))) := by
  induction ts with
  | nil => exact ⟨[], nofun, rfl, rfl⟩
  | cons t ts ih =>
    obtain ⟨places, hp, ht, hm⟩ := ih
    refine ⟨t.kind.complaint?.toList.map (·, t.span.start) ++ places, ?_, ?_, ?_⟩
    · intro q hq
      rcases List.mem_append.mp hq with hq | hq
      · obtain ⟨text, htext, rfl⟩ := List.mem_map.mp hq
        exact Kind.complaint?_eq (Option.mem_toList.mp htext)
      · exact hp q hq
    · rw [List.flatMap_cons, log_eq, ht, List.map_append, List.map_map]
      rfl
    · rw [List.map_cons, List.flatMap_cons, log_eq, hm, List.map_append, List.map_map]
      rfl

end Token

namespace Lexer
variable {l m : Lexer} {source : Text} {k : Nat}

/-- The same text is left to both lexers, and it starts `k` bytes further on for the first. -/
structure Ahead (k : Nat) (l m : Lexer) : Prop where
  rest_eq : l.rest = m.rest
  position_eq : l.position = k + m.position

/-- One read keeps the distance, and the token that is read shows it. -/
theorem ahead_next (h : Ahead k l m) :
    l.next.1 = m.next.1.moved k ∧ Ahead k l.next.2 m.next.2 := by
  obtain ⟨hr, hp⟩ := h
  obtain ⟨hl, hlr⟩ := next_of_scan (l := l) rfl
  obtain ⟨hm, hmr⟩ := next_of_scan (l := m) rfl
  -- A read sees nothing but the text that is left; the position only places the token.
  have ht : l.next.1 = m.next.1.moved k := by
    rw [hl, hm, hr, hp]
    simp only [Token.ofScan, Token.moved, Nat.add_assoc]
  refine ⟨ht, ?_, ?_⟩
  · rw [hlr, hmr, hr]
  · rw [position_next, position_next, ht]
    rfl

theorem ahead_after (h : Ahead k l m) (j : Nat) : Ahead k (l.after j) (m.after j) := by
  induction j generalizing l m with
  | zero => exact h
  | succ j ih => exact ih (ahead_next h).2

/-- A lexer in its place is as far ahead of a fresh one on the rest as it has come. -/
theorem ahead_ofText (l : Lexer) : Ahead l.position l (ofText l.rest) := ⟨rfl, rfl⟩

theorem slice_rest (h : Placed source l) :
    Span.slice ⟨l.position, source.size⟩ source = some l.rest := by
  obtain ⟨-, front, rfl, hf⟩ := h
  rw [Span.slice_eq_some_iff]
  exact ⟨front, [], (List.append_nil _).symm, hf, rfl⟩

theorem triviaSpan_moved (l : Lexer) :
    (l.next.1.moved k).triviaSpan =
      ⟨k + l.next.1.triviaSpan.start, k + l.next.1.triviaSpan.stop⟩ := by
  have ht := (measured_next l).2
  simp only [Token.triviaSpan, Token.moved, Span.mk.injEq, and_true]
  omega

/-- What is read behind any token is what a fresh lexer reads of the rest, further on. -/
theorem nth_add (source : Text) (k j : Nat) :
    nth source (k + j) =
      (nth ((ofText source).after k).rest j).moved ((ofText source).after k).position := by
  have ha := ahead_after (ahead_ofText ((ofText source).after k)) j
  rw [← after_add] at ha
  exact (ahead_next ha).1

theorem position_add (source : Text) (k j : Nat) :
    ((ofText source).after (k + j)).position = ((ofText source).after k).position +
      ((ofText ((ofText source).after k).rest).after j).position := by
  rw [after_add]
  exact (ahead_after (ahead_ofText ((ofText source).after k)) j).position_eq

end Lexer

namespace CursorLexer
open Lexer (nth)

/-- Any number of reads succeed, and behind them a lexer reads what a fresh one reads of the bytes
that are left, token after token and also after the end. All offsets are greater by the position of
the restart, those in the log included. -/
theorem read_restarted (source : Text) (k : Nat) :
    ∃ before l rest, (ofText source).read k = some (before, l) ∧ before.length = k ∧
      Span.slice ⟨l.position, source.size⟩ source = some rest ∧
      ∀ j, ∃ ts l' us m, l.read j = some (ts, l') ∧ (ofText rest).read j = some (us, m) ∧
        us.length = j ∧
        ts = us.map (fun u =>
          ⟨u.kind, u.trivia, u.value, l.position + u.span.start, l.position + u.span.stop⟩) ∧
        ts.map Token.triviaSpan = us.map (fun u =>
          ⟨l.position + u.triviaSpan.start, l.position + u.triviaSpan.stop⟩) ∧
        l'.position = l.position + m.position ∧
        ∃ places : List (String × Nat),
          (∀ q ∈ places, q.1 = "unterminated string literal starting at byte " ∨
            q.1 = "unterminated block comment starting at byte ") ∧
          m.log = places.map (fun q => .debug (q.1 ++ toString q.2)) ∧
          l'.log = l.log ++ places.map (fun q => .debug (q.1 ++ toString (l.position + q.2))) := by
  obtain ⟨l, hl, hf, -⟩ := read_ofText source k
  refine ⟨_, l, ((Lexer.ofText source).after k).rest, hl, by simp, ?_, ?_⟩
  · rw [hf.position_eq]
    exact Lexer.slice_rest (Lexer.placed_after source k)
  intro j
  obtain ⟨l', hl', hf', hlog'⟩ := read_follows hf j
  obtain ⟨m, hm, hfm, hlogm⟩ := read_ofText ((Lexer.ofText source).after k).rest j
  have hts : (List.range j).map (fun i => (((Lexer.ofText source).after k).after i).next.1) =
      ((List.range j).map (nth ((Lexer.ofText source).after k).rest)).map
        (Token.moved l.position) := by
    rw [List.map_map]
    refine List.map_congr_left fun i _ => ?_
    rw [← Lexer.after_add, hf.position_eq]
    exact Lexer.nth_add source k i
  obtain ⟨places, hp, hu, ht⟩ := Token.log_moved l.position
    ((List.range j).map (nth ((Lexer.ofText source).after k).rest))
  refine ⟨_, l', _, m, hl', hm, by simp, hts, ?_, ?_, places, hp, ?_, ?_⟩
  · rw [hts, List.map_map, List.map_map, List.map_map]
    exact List.map_congr_left fun i _ => Lexer.triviaSpan_moved _
  · rw [hf'.position_eq, hf.position_eq, hfm.position_eq, ← Lexer.after_add]
    exact Lexer.position_add source k j
  · rw [hlogm, hu]
  · rw [hlog', hts, ht]

end CursorLexer

end LexCalc
