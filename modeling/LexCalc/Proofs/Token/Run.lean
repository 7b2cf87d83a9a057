import LexCalc.Proofs.Token.Scan
import LexCalc.Token.Lexer

/-! What one read does to a lexer, and what any number of reads comes to. -/
namespace LexCalc

namespace Lexer
variable {l : Lexer} {source : Text}

/-- The lexer after some reads. -/
def after (l : Lexer) : Nat → Lexer
  | 0 => l
  | k + 1 => l.next.2.after k

/-- The tokens that a fresh lexer reads one after another, without end. -/
def nth (source : Text) (k : Nat) : Token := ((ofText source).after k).next.1

theorem after_succ (l : Lexer) (k : Nat) : l.after (k + 1) = (l.after k).next.2 := by
  induction k generalizing l with
  | zero => rfl
  | succ k ih => exact ih l.next.2

theorem after_add (l : Lexer) (j k : Nat) : l.after (j + k) = (l.after j).after k := by
  induction j generalizing l with
  | zero =>
    rw [Nat.zero_add]
    rfl
  | succ j ih =>
    rw [Nat.succ_add]
    exact ih l.next.2

theorem start_next (l : Lexer) : l.next.1.span.start = l.position + l.next.1.trivia.size := rfl

theorem stop_next (l : Lexer) :
    l.next.1.span.stop = l.next.1.span.start + l.next.1.value.size := rfl

theorem position_next (l : Lexer) : l.next.2.position = l.next.1.span.stop := rfl

theorem next_of_scan {s : Scan} (h : Scan.ofText l.rest = s) :
    l.next.1 = Token.ofScan l.position s ∧ l.next.2.rest = s.rest := by
  subst h
  exact ⟨rfl, rfl⟩

theorem lexeme_next (l : Lexer) : Lexeme l.next.1.kind l.next.1.value l.next.2.rest :=
  Scan.lexeme_ofText l.rest

theorem next_append (l : Lexer) :
    l.next.1.trivia ++ (l.next.1.value ++ l.next.2.rest) = l.rest := Scan.ofText_append l.rest

/-- What is passed and what is left make up the source, and the position is where they meet. -/
structure Placed (source : Text) (l : Lexer) : Prop where
  source_eq : l.source = source
  passed : ∃ front, source = front ++ l.rest ∧ front.size = l.position

theorem placed_ofText (source : Text) : Placed source (ofText source) :=
  ⟨rfl, [], rfl, rfl⟩

theorem placed_next (h : Placed source l) : Placed source l.next.2 := by
  obtain ⟨hs, front, rfl, hf⟩ := h
  refine ⟨hs, front ++ (l.next.1.trivia ++ l.next.1.value), ?_, ?_⟩
  · rw [List.append_assoc, List.append_assoc, next_append]
  · rw [position_next, stop_next, start_next, Text.size_append, Text.size_append, hf]
    omega

theorem placed_after (source : Text) (k : Nat) : Placed source ((ofText source).after k) := by
  induction k with
  | zero => exact placed_ofText source
  | succ k ih =>
    rw [after_succ]
    exact placed_next ih

/-- The end of what is left stays where it is. -/
theorem position_add_size_next (l : Lexer) :
    l.next.2.position + l.next.2.rest.size = l.position + l.rest.size := by
  rw [← next_append l, position_next, stop_next, start_next, Text.size_append, Text.size_append]
  omega

/-- Reading on comes to the end of the text. -/
theorem finish_induction {motive : Lexer → Prop}
    (last : ∀ l, l.next.1.kind = .eof → motive l)
    (more : ∀ l, l.next.1.kind ≠ .eof → motive l.next.2 → motive l) (l : Lexer) : motive l := by
  by_cases h : l.next.1.kind = .eof
  · exact last l h
  · have hl : l.next.2.rest.length < l.rest.length := Scan.length_rest_lt h
    exact more l h (finish_induction last more l.next.2)
termination_by l.rest.length

theorem finishFrom_of_eof (read : List Token) (h : l.next.1.kind = .eof) :
    finishFrom read l = ((l.next.1 :: read).reverse, l.next.2) := by rw [finishFrom, dif_pos h]

theorem finishFrom_of_ne_eof (read : List Token) (h : l.next.1.kind ≠ .eof) :
    finishFrom read l = finishFrom (l.next.1 :: read) l.next.2 := by rw [finishFrom, dif_neg h]

theorem finishFrom_eq (read : List Token) (l : Lexer) :
    (finishFrom read l).1 = read.reverse ++ l.finish.1 := by
  unfold finish
  induction l using finish_induction generalizing read with
  | last l h =>
    rw [finishFrom_of_eof read h, finishFrom_of_eof [] h]
    simp
  | more l h ih =>
    rw [finishFrom_of_ne_eof read h, finishFrom_of_ne_eof [] h, ih (l.next.1 :: read),
      ih [l.next.1]]
    simp

theorem finish_of_eof (h : l.next.1.kind = .eof) : l.finish.1 = [l.next.1] := by
  rw [finish, finishFrom_of_eof [] h]
  rfl

theorem finish_of_ne_eof (h : l.next.1.kind ≠ .eof) :
    l.finish.1 = l.next.1 :: l.next.2.finish.1 := by
  rw [finish, finishFrom_of_ne_eof [] h, finishFrom_eq]
  rfl

theorem stop_le_of_mem_finish {t : Token} (ht : t ∈ l.finish.1) :
    t.span.start ≤ t.span.stop ∧ t.span.stop ≤ l.position + l.rest.size := by
  have hn : ∀ l : Lexer, l.next.1.span.start ≤ l.next.1.span.stop ∧
      l.next.1.span.stop ≤ l.position + l.rest.size := by
    intro l
    rw [← position_add_size_next, position_next, stop_next]
    exact ⟨Nat.le_add_right _ _, Nat.le_add_right _ _⟩
  induction l using finish_induction with
  | last l h =>
    rw [finish_of_eof h, List.mem_singleton] at ht
    rw [ht]
    exact hn l
  | more l h ih =>
    rw [finish_of_ne_eof h, List.mem_cons] at ht
    obtain rfl | ht := ht
    · exact hn l
    · rw [← position_add_size_next]
      exact ih ht

/-- The tokens up to the end of the text are those of the first reads, and only the last of these
reads the end. -/
theorem finish_eq_map (l : Lexer) :
    ∃ n, l.finish.1 = (List.range (n + 1)).map (fun k => (l.after k).next.1) ∧
      (∀ k < n, (l.after k).next.1.kind ≠ .eof) ∧ (l.after n).next.1.kind = .eof := by
  induction l using finish_induction with
  | last l h => exact ⟨0, finish_of_eof h, by simp, h⟩
  | more l h ih =>
    obtain ⟨n, hm, hn, he⟩ := ih
    refine ⟨n + 1, ?_, ?_, he⟩
    · rw [finish_of_ne_eof h, hm, List.range_succ_eq_map (n := n + 1), List.map_cons,
        List.map_map]
      rfl
    · intro k hk
      cases k with
      | zero => exact h
      | succ k => exact hn k (Nat.lt_of_succ_lt_succ hk)

/-- Nothing of what is left to read is lost. -/
theorem finish_flatMap (l : Lexer) :
    l.finish.1.flatMap (fun t => t.trivia ++ t.value) = l.rest := by
  induction l using finish_induction with
  | last l h =>
    have hr := lexeme_next l
    rw [h] at hr
    have ha := next_append l
    rw [(conforms_of_lexeme hr).2, List.append_nil] at ha
    rw [finish_of_eof h, ← ha]
    simp
  | more l h ih =>
    rw [finish_of_ne_eof h, List.flatMap_cons, ih, List.append_assoc, next_append]

/-- A token starts behind all that was read before it and behind its own trivia. -/
theorem start_of_finish {front back : List Token} {t : Token}
    (h : l.finish.1 = front ++ t :: back) :
    t.span.start =
      l.position + Text.size (front.flatMap fun u => u.trivia ++ u.value) + t.trivia.size := by
  induction l using finish_induction generalizing front with
  | last l he =>
    rw [finish_of_eof he] at h
    cases front with
    | nil =>
      obtain ⟨rfl, -⟩ := List.cons.inj h
      exact start_next l
    | cons u front => simp at h
  | more l he ih =>
    rw [finish_of_ne_eof he] at h
    cases front with
    | nil =>
      obtain ⟨rfl, -⟩ := List.cons.inj h
      exact start_next l
    | cons u front =>
      obtain ⟨rfl, hf⟩ := List.cons.inj h
      have hs := ih hf
      rw [position_next, stop_next, start_next] at hs
      rw [hs, List.flatMap_cons, Text.size_append, Text.size_append]
      omega

end Lexer

end LexCalc
