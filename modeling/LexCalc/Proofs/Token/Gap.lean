import LexCalc.Proofs.Token.Scan

/-! The trivia in front of a token as a judgment of the grammar. The scanner cuts off exactly what
the judgment allows. -/
namespace LexCalc
variable {c : Char} {s t u rest : Text} {n : Nat}

/-- What may stand between two tokens, in front of `rest`: whitespace, line comments up to a
newline or the end of the text, and block comments up to the first `*/`. -/
inductive Gap (rest : Text) : Text → Prop
  | nil : Gap rest []
  | blank {c : Char} {s : Text} (hc : Blank c) (h : Gap rest s) : Gap rest (c :: s)
  | line {body s : Text} (hb : '\n' ∉ body) (hr : ∀ d ∈ (s ++ rest).head?, d = '\n')
      (h : Gap rest s) : Gap rest ('/' :: '/' :: (body ++ s))
  | block {body s : Text} (hb : ¬ ['*', '/'] <:+: body) (h : Gap rest s) :
      Gap rest ('/' :: '*' :: (body ++ '*' :: '/' :: s))

namespace Gap

theorem of_blank (hs : ∀ c ∈ s, Blank c) : Gap rest s := by
  induction s with
  | nil => exact .nil
  | cons c s ih =>
    rw [List.forall_mem_cons] at hs
    exact .blank hs.1 (ih hs.2)

/-- Trivia in front of trivia are one gap. -/
theorem append (hs : Gap (t ++ rest) s) (ht : Gap rest t) : Gap rest (s ++ t) := by
  induction hs with
  | nil => exact ht
  | blank hc _ ih => exact .blank hc ih
  | @line body s hb hr _ ih =>
    rw [← List.append_assoc] at hr
    have hl := Gap.line hb hr ih
    rwa [← List.append_assoc] at hl
  | @block body s hb _ ih =>
    have hl := Gap.block hb ih
    simpa using hl

/-- A newline that follows, or a text that starts with one, ends a comment as the end of the text
does. -/
theorem append_newline (h : Gap rest s) (hu : ∀ d ∈ u.head?, d = '\n') : Gap (rest ++ u) s := by
  induction h with
  | nil => exact .nil
  | blank hc _ ih => exact .blank hc ih
  | @line body s hb hr _ ih =>
    refine .line hb ?_ ih
    intro d hd
    rw [← List.append_assoc, List.head?_append] at hd
    cases hs : (s ++ rest).head? with
    | none =>
      rw [hs] at hd
      exact hu d hd
    | some e =>
      rw [hs] at hd
      cases hd
      exact hr d hs
  | block hb _ ih => exact .block hb ih

end Gap

namespace Trivia

theorem blockLength?_append {body : Text} (hb : ¬ ['*', '/'] <:+: body) (n : Nat) (t : Text) :
    blockLength? n (body ++ '*' :: '/' :: t) = some (n + body.length + 2) := by
  induction body generalizing n with
  | nil => rfl
  | cons c body ih =>
    rw [List.infix_cons_iff, not_or] at hb
    have hc : ∀ t', c = '*' → body ++ '*' :: '/' :: t = '/' :: t' → False := by
      rintro t' rfl ht
      exact not_pair_append (t := '*' :: '/' :: t) hb.1 (by simp) ⟨t', by rw [ht]; rfl⟩
    rw [List.cons_append, blockLength?.eq_2 _ _ _ hc, ih hb.2, List.length_cons]
    congr 1
    omega

theorem exists_of_blockLength? {m : Nat} (h : blockLength? n t = some m) :
    ∃ body rest, t = body ++ '*' :: '/' :: rest ∧ ¬ ['*', '/'] <:+: body ∧
      m = n + body.length + 2 := by
  fun_induction blockLength? n t with
  | case1 n rest =>
    cases h
    exact ⟨[], rest, rfl, by simp, rfl⟩
  | case2 n c t hc ih =>
    obtain ⟨body, rest, rfl, hb, rfl⟩ := ih h
    refine ⟨c :: body, rest, rfl, ?_, ?_⟩
    · rw [List.infix_cons_iff, not_or]
      refine ⟨?_, hb⟩
      rintro ⟨t', ht⟩
      cases body with
      | nil => simp at ht
      | cons d body =>
        cases ht
        exact hc _ rfl rfl
    · rw [List.length_cons]
      omega
  | case3 => cases h

theorem not_clear_blank (hc : Blank c) (t : Text) : ¬ Clear (c :: t) := fun h => h.blank c rfl hc

theorem not_clear_line (t : Text) : ¬ Clear ('/' :: '/' :: t) := fun h => h.line ⟨t, rfl⟩

theorem not_clear_block (body t : Text) : ¬ Clear ('/' :: '*' :: (body ++ '*' :: '/' :: t)) :=
  fun h => h.block _ rfl ⟨body, t, by simp⟩

/-- What is not clear starts with a piece of trivia of one of three kinds. -/
theorem exists_of_not_clear (h : ¬ Clear t) :
    (∃ c t', t = c :: t' ∧ Blank c) ∨ (∃ t', t = '/' :: '/' :: t') ∨
      ∃ body t', t = '/' :: '*' :: (body ++ '*' :: '/' :: t') ∧ ¬ ['*', '/'] <:+: body := by
  by_cases hblank : ∃ c t', t = c :: t' ∧ Blank c
  · exact .inl hblank
  by_cases hline : ∃ t', t = '/' :: '/' :: t'
  · exact .inr (.inl hline)
  by_cases hblock : ∃ body t', t = '/' :: '*' :: (body ++ '*' :: '/' :: t') ∧ ¬ ['*', '/'] <:+: body
  · exact .inr (.inr hblock)
  refine absurd ⟨?_, ?_, ?_⟩ h
  · intro c hc hb
    obtain ⟨t', rfl⟩ := List.head?_eq_some_iff.mp hc
    exact hblank ⟨c, t', rfl, hb⟩
  · rintro ⟨t', rfl⟩
    exact hline ⟨t', rfl⟩
  · rintro body rfl hi
    cases hl : blockLength? 0 body with
    | none => exact blockLength?_eq_none.mp hl hi
    | some m =>
      obtain ⟨body', t', rfl, hb, -⟩ := exists_of_blockLength? hl
      exact hblock ⟨body', t', rfl, hb⟩

theorem split_blank (hc : Blank c) (t : Text) :
    split (c :: t) = (c :: (split t).1, (split t).2) := by
  have hp : pieceLength (c :: t) = (t.takeWhile isSpace).length + 1 := by
    rw [pieceLength_of_blank hc, List.takeWhile_cons_of_pos (isSpace_iff.mpr hc), List.length_cons]
  rw [split_of_not_clear (not_clear_blank hc t), hp, List.take_succ_cons, List.drop_succ_cons]
  -- The run of whitespace may go on in the text after it.
  cases t with
  | nil => rfl
  | cons d t =>
    by_cases hd : Blank d
    · have hp' := pieceLength_of_blank hd t
      rw [split_of_not_clear (not_clear_blank hd t), hp']
      rfl
    · have hw : (d :: t).takeWhile isSpace = [] := by
        rw [List.takeWhile_cons_of_neg (by rwa [isSpace_iff])]
      rw [hw]
      rfl

theorem split_line {body : Text} (hb : '\n' ∉ body) (ht : ∀ d ∈ t.head?, d = '\n') :
    split ('/' :: '/' :: (body ++ t)) = ('/' :: '/' :: (body ++ (split t).1), (split t).2) := by
  have hw : (body ++ t).takeWhile (· ≠ '\n') = body := by
    apply takeWhile_append_eq
    · intro d hd
      exact decide_eq_true fun he => hb (he ▸ hd)
    · intro d hd
      simp [ht d hd]
  have hp : pieceLength ('/' :: '/' :: (body ++ t)) = body.length + 2 := by
    change ((body ++ t).takeWhile (· ≠ '\n')).length + 2 = _
    rw [hw]
  rw [split_of_not_clear (not_clear_line _), hp]
  simp

theorem split_block {body : Text} (hb : ¬ ['*', '/'] <:+: body) (t : Text) :
    split ('/' :: '*' :: (body ++ '*' :: '/' :: t)) =
      ('/' :: '*' :: (body ++ '*' :: '/' :: (split t).1), (split t).2) := by
  have hp : pieceLength ('/' :: '*' :: (body ++ '*' :: '/' :: t)) =
      (body ++ ['*', '/']).length + 2 := by
    change (blockLength? 2 (body ++ '*' :: '/' :: t)).getD 0 = _
    rw [blockLength?_append hb, Option.getD_some, List.length_append]
    simp only [List.length_cons, List.length_nil]
    omega
  have ht : body ++ '*' :: '/' :: t = body ++ ['*', '/'] ++ t := by simp
  rw [split_of_not_clear (not_clear_block body t), hp, ht]
  simp only [List.take_succ_cons, List.drop_succ_cons, List.take_left, List.drop_left]
  simp

/-- What is cut off is a gap in front of what is left. -/
theorem gap_split (t : Text) : Gap (split t).2 (split t).1 := by
  by_cases h : Clear t
  · rw [split_of_clear h]
    exact .nil
  obtain ⟨c, t', rfl, hc⟩ | ⟨t', rfl⟩ | ⟨body, t', rfl, hb⟩ := exists_of_not_clear h
  · rw [split_blank hc]
    exact .blank hc (gap_split t')
  · have ht := List.takeWhile_append_dropWhile (p := (· ≠ '\n')) (l := t')
    have hb : '\n' ∉ t'.takeWhile (· ≠ '\n') := fun hm => by simpa using of_mem_takeWhile hm
    have hr : ∀ d ∈ (t'.dropWhile (· ≠ '\n')).head?, d = '\n' := by
      intro d hd
      simpa using of_mem_head?_dropWhile hd
    rw [← ht, split_line hb hr]
    refine .line hb ?_ (gap_split _)
    rwa [split_append]
  · rw [split_block hb]
    exact .block hb (gap_split t')
termination_by t.length
decreasing_by
  · rw [‹t = c :: t'›]
    simp
  · have := length_dropWhile_le (· ≠ '\n') t'
    rw [‹t = '/' :: '/' :: t'›, List.length_cons, List.length_cons]
    omega
  · rw [‹t = '/' :: '*' :: (body ++ '*' :: '/' :: t')›]
    simp
    omega

/-- A gap in front of a clear text is cut off whole. -/
theorem split_gap (h : Gap rest s) (hc : Clear rest) : split (s ++ rest) = (s, rest) := by
  induction h with
  | nil => exact split_of_clear hc
  | blank hb _ ih => rw [List.cons_append, split_blank hb, ih]
  | @line body s hb hr _ ih =>
    rw [List.cons_append, List.cons_append, List.append_assoc, split_line hb hr, ih]
  | @block body s hb _ ih =>
    have hs : '/' :: '*' :: (body ++ '*' :: '/' :: s) ++ rest =
        '/' :: '*' :: (body ++ '*' :: '/' :: (s ++ rest)) := by simp
    rw [hs, split_block hb, ih]

end Trivia

namespace Scan

theorem gap_ofText (t : Text) :
    Gap ((ofText t).value ++ (ofText t).rest) (ofText t).trivia := by
  have h := Trivia.gap_split t
  have ha : (ofText t).value ++ (ofText t).rest = (Trivia.split t).2 :=
    Value.split_append (Trivia.split t).2
  rwa [ha]

/-- A gap and then a token of the grammar are what is found. -/
theorem ofText_of_gap {kind : Kind} {trivia value rest : Text} (hg : Gap (value ++ rest) trivia)
    (h : Lexeme kind value rest) :
    ofText (trivia ++ (value ++ rest)) = ⟨trivia, kind, value, rest⟩ := by
  rw [ofText, Trivia.split_gap hg (Value.clear_of_lexeme h)]
  dsimp only
  rw [Value.split_lexeme h]

end Scan

end LexCalc
