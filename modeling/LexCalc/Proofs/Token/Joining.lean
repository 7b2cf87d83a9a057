import LexCalc.Proofs.Token.Reading

/-! Two texts with a newline between them. -/
namespace LexCalc
variable {s t rest : Text} {kind : Kind} {trivia value : Text} {rs ts : List (Kind × Text × Text)}

namespace Reading

/-- Trivia in front of a text belong to its first token. -/
theorem gap_append (h : Reading t ((kind, trivia, value) :: ts)) (hg : Gap t s) :
    Reading (s ++ t) ((kind, s ++ trivia, value) :: ts) := by
  cases h with
  | last ht =>
    rw [← List.append_nil t] at hg
    exact .last (hg.append ht)
  | more ht hl hk h =>
    rw [← List.append_assoc]
    exact .more (hg.append ht) hl hk h

/-- A newline ends whatever is not open: what is read of the text before it stays as it is, and
the trivia at its end become part of the trivia of the first token behind it. -/
theorem append_newline (h : Reading s rs) (ho : ∀ r ∈ rs, ¬ r.1.isOpen)
    (ht : Reading t ((kind, trivia, value) :: ts)) :
    ∃ front e, rs = front ++ [(.eof, e, [])] ∧
      Reading (s ++ '\n' :: t) (front ++ (kind, e ++ '\n' :: trivia, value) :: ts) := by
  have hhead : ∀ d ∈ ('\n' :: t).head?, d = '\n' := by
    rintro d hd
    exact (Option.some.inj hd).symm
  induction h with
  | @last e he =>
    have he' : Gap (['\n'] ++ t) e := he.append_newline hhead
    have hr := ht.gap_append (he'.append (.blank (by decide) .nil))
    rw [List.append_assoc, List.append_assoc] at hr
    exact ⟨[], e, rfl, hr⟩
  | @more k tr v rest rs hg hl hk _ ih =>
    rw [List.forall_mem_cons] at ho
    obtain ⟨front, e, rfl, hr⟩ := ih ho.2
    have hg' := hg.append_newline hhead
    have hl' : Lexeme k v (rest ++ '\n' :: t) := by
      apply hl.of_head?
      · intro d hd
        cases rest with
        | nil =>
          cases hd
          exact .inl (by decide)
        | cons c rest => exact .inr hd
      · rintro (he | hopen)
        · exact absurd he hk
        · exact absurd hopen ho.1
    rw [List.append_assoc] at hg'
    have hm := Reading.more hg' hl' hk hr
    refine ⟨(k, tr, v) :: front, e, rfl, ?_⟩
    rw [List.append_assoc, List.append_assoc]
    exact hm

theorem flatMap_eq (h : Reading s rs) : rs.flatMap (fun r => r.2.1 ++ r.2.2) = s := by
  induction h with
  | last => simp
  | more hg hl hk _ ih => rw [List.flatMap_cons, ih, List.append_assoc]

end Reading

namespace Token

/-- A token further on in another text. -/
def moved (k : Nat) (t : Token) : Token := { t with span := ⟨k + t.span.start, k + t.span.stop⟩ }

theorem place_add (k n : Nat) (rs : List (Kind × Text × Text)) :
    place (k + n) rs = (place n rs).map (moved k) := by
  induction rs generalizing n with
  | nil => rfl
  | cons r rs ih =>
    obtain ⟨kind, trivia, value⟩ := r
    rw [place, place, List.map_cons, ← ih]
    simp only [ofScan, moved, Nat.add_assoc]

theorem place_append (n : Nat) (rs ts : List (Kind × Text × Text)) :
    place n (rs ++ ts) =
      place n rs ++ place (n + Text.size (rs.flatMap fun r => r.2.1 ++ r.2.2)) ts := by
  induction rs generalizing n with
  | nil => rfl
  | cons r rs ih =>
    obtain ⟨kind, trivia, value⟩ := r
    rw [List.cons_append, place, ih, place, List.flatMap_cons, Text.size_append, Text.size_append]
    simp only [List.cons_append, Nat.add_assoc]

end Token

namespace Lexer

/-- The tokens before a newline and those behind it make up the tokens of the whole, if none of the
former lacks an end. -/
theorem tokens_append_newline (s t : Text) (h : ∀ u ∈ tokens s, ¬ u.kind.isOpen) :
    ∃ front e first rest, tokens s = front ++ [e] ∧ e.kind = .eof ∧ tokens t = first :: rest ∧
      tokens (s ++ '\n' :: t) =
        front ++ ({ first with trivia := e.trivia ++ '\n' :: first.trivia } :: rest).map
          (Token.moved (s.size + 1)) := by
  have hs : Reading s ((tokens s).map Token.reading) := reading_iff.mpr rfl
  have ht : Reading t ((tokens t).map Token.reading) := reading_iff.mpr rfl
  obtain ⟨⟨kind, trivia, value⟩, ts, htt⟩ := List.exists_cons_of_ne_nil ht.ne_nil
  rw [htt] at ht
  have ho : ∀ r ∈ (tokens s).map Token.reading, ¬ r.1.isOpen := by
    intro r hr
    obtain ⟨u, hu, rfl⟩ := List.mem_map.mp hr
    exact h u hu
  obtain ⟨front, e, hf, hr⟩ := hs.append_newline ho ht
  rw [hf] at hs
  have hs' := tokens_of_reading hs
  have hr' := tokens_of_reading hr
  rw [Token.place_append, Nat.zero_add] at hs' hr'
  refine ⟨_, _, _, _, hs', rfl, tokens_of_reading ht, ?_⟩
  generalize hn : Text.size (front.flatMap fun r => r.2.1 ++ r.2.2) = n at hr' ⊢
  have hsize : n + Text.size e = s.size := by
    have h := congrArg Text.size hs.flatMap_eq
    rw [List.flatMap_append, Text.size_append, hn] at h
    simpa using h
  have hstart : n + Text.size (e ++ '\n' :: trivia) = s.size + 1 + trivia.size := by
    rw [Text.size_append, ← Nat.add_assoc, hsize, Text.size_cons, ← Nat.add_assoc]
    rfl
  rw [hr', Token.place, hstart, List.map_cons, ← Token.place_add, Nat.zero_add, Nat.add_assoc]
  congr 2
  simp only [Token.moved, Token.ofScan, hstart, Nat.zero_add, Nat.add_assoc]

end Lexer

end LexCalc
