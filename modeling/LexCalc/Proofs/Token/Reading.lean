import LexCalc.Proofs.Token.Gap
import LexCalc.Proofs.Token.Run

/-! What is read of a text as a derivation of the grammar: gaps and tokens in turn up to the end.
A text has exactly one derivation, so a change to the text is followed by changing it. -/
namespace LexCalc

/-- The kinds of tokens that are malformed for want of an end. -/
def Kind.isOpen (kind : Kind) : Bool :=
  kind == .unterminatedComment || kind == .unterminatedStringLiteral

theorem Kind.isOpen_iff {kind : Kind} :
    kind.isOpen ↔ kind = .unterminatedComment ∨ kind = .unterminatedStringLiteral := by
  simp [isOpen]

namespace Lexeme
variable {kind : Kind} {value rest t : Text}

theorem value_ne_nil (h : Lexeme kind value rest) (hk : kind ≠ .eof) : value ≠ [] := by
  cases h with
  | eof => exact absurd rfl hk
  | word | number | string | openString | openComment | pair | single | invalid => simp

/-- Only the end of the text is empty. -/
theorem value_eq_nil_iff (h : Lexeme kind value rest) : value = [] ↔ kind = .eof := by
  constructor
  · rintro rfl
    cases h with
    | eof => rfl
  · rintro rfl
    exact (conforms_of_lexeme h).1

theorem of_eof (h : Lexeme .eof value rest) : value = [] ∧ rest = [] := conforms_of_lexeme h

theorem rest_of_open (h : Lexeme kind value rest) (ho : kind.isOpen) : rest = [] := by
  have hc := conforms_of_lexeme h
  obtain rfl | rfl := Kind.isOpen_iff.mp ho
  · obtain ⟨body, -, -, hr⟩ := hc
    exact hr
  · obtain ⟨body, -, -, hr⟩ := hc
    exact hr

/-- A token stays as it is in front of another text that starts with whitespace or in the same
way. -/
theorem of_head? (h : Lexeme kind value rest) (hh : ∀ d ∈ t.head?, Blank d ∨ d ∈ rest.head?)
    (ho : kind = .eof ∨ kind.isOpen → t = []) : Lexeme kind value t := by
  cases h with
  | eof =>
    obtain rfl := ho (.inl rfl)
    exact .eof
  | word hc hw hk hr =>
    exact .word hc hw hk fun d hd => (hh d hd).elim not_wordPart_of_blank (hr d)
  | number hc hw hr => exact .number hc hw fun d hd => (hh d hd).elim not_digit_of_blank (hr d)
  | string hb => exact .string hb
  | openString hb =>
    obtain rfl := ho (.inr rfl)
    exact .openString hb
  | openComment hb =>
    obtain rfl := ho (.inr rfl)
    exact .openComment hb
  | pair hk => exact .pair hk
  | single hk hp hs =>
    refine .single hk ?_ ?_
    · exact fun d hd => (hh d hd).elim (fun hb => not_pair_of_blank hb _) (hp d)
    · exact fun hc d hd => (hh d hd).elim not_comment_of_blank (hs hc d)
  | invalid hb hw hd hq hs => exact .invalid hb hw hd hq hs

end Lexeme

/-- What is read of a token, apart from where it stands. -/
def Token.reading (t : Token) : Kind × Text × Text := (t.kind, t.trivia, t.value)

/-- The tokens of a text by the grammar, each with its trivia, and the end as the last one. -/
inductive Reading : Text → List (Kind × Text × Text) → Prop
  | last {trivia : Text} (hg : Gap [] trivia) : Reading trivia [(.eof, trivia, [])]
  | more {kind : Kind} {trivia value rest : Text} {rs : List (Kind × Text × Text)}
      (hg : Gap (value ++ rest) trivia) (hl : Lexeme kind value rest) (hk : kind ≠ .eof)
      (h : Reading rest rs) : Reading (trivia ++ (value ++ rest)) ((kind, trivia, value) :: rs)

namespace Lexer
variable {l : Lexer} {source : Text} {rs : List (Kind × Text × Text)}

theorem gap_next (l : Lexer) : Gap (l.next.1.value ++ l.next.2.rest) l.next.1.trivia :=
  Scan.gap_ofText l.rest

theorem next_of_rest_nil (h : l.rest = []) : l.next.1 = ⟨.eof, [], [], .point l.position⟩ := by
  have hs : Scan.ofText l.rest = ⟨[], .eof, [], []⟩ := by
    rw [h]
    exact Scan.ofText_of_gap .nil .eof
  rw [(next_of_scan hs).1]
  rfl

theorem finish_of_open (h : l.next.1.kind.isOpen) :
    l.finish.1 = [l.next.1, ⟨.eof, [], [], .point l.next.1.span.stop⟩] := by
  have hk : l.next.1.kind ≠ .eof := by
    intro hk
    rw [hk] at h
    cases h
  have he := next_of_rest_nil ((lexeme_next l).rest_of_open h)
  rw [finish_of_ne_eof hk, finish_of_eof (by rw [he]), he]
  rfl

/-- A token without an end of its own is the last one, and an empty end follows it. -/
theorem exists_of_open {t : Token} (ht : t ∈ l.finish.1) (ho : t.kind.isOpen) :
    ∃ front, l.finish.1 = front ++ [t, ⟨.eof, [], [], .point t.span.stop⟩] ∧
      (∀ u ∈ front, ¬ u.kind.isOpen) ∧ t.span.stop = l.position + l.rest.size := by
  induction l using finish_induction with
  | last l h =>
    rw [finish_of_eof h, List.mem_singleton] at ht
    rw [ht, h] at ho
    cases ho
  | more l h ih =>
    by_cases hn : l.next.1.kind.isOpen
    · rw [finish_of_open hn, List.mem_cons, List.mem_singleton] at ht
      obtain rfl | rfl := ht
      · refine ⟨[], finish_of_open hn, by simp, ?_⟩
        rw [← position_add_size_next, (lexeme_next l).rest_of_open hn]
        rfl
      · cases ho
    · rw [finish_of_ne_eof h, List.mem_cons] at ht
      obtain rfl | ht := ht
      · exact absurd ho hn
      · obtain ⟨front, hf, hfront, hstop⟩ := ih ht
        refine ⟨l.next.1 :: front, ?_, List.forall_mem_cons.mpr ⟨hn, hfront⟩, ?_⟩
        · rw [finish_of_ne_eof h, hf]
          rfl
        · rw [hstop, position_add_size_next]

/-- What a lexer reads up to the end is a derivation. -/
theorem reading_finish (l : Lexer) : Reading l.rest (l.finish.1.map Token.reading) := by
  induction l using finish_induction with
  | last l h =>
    have hl := lexeme_next l
    have hg := gap_next l
    have ha := next_append l
    rw [h] at hl
    obtain ⟨hv, hr⟩ := hl.of_eof
    rw [hv, hr, List.append_nil] at hg
    rw [hv, hr, List.append_nil, List.append_nil] at ha
    rw [finish_of_eof h, ← ha, List.map_singleton, Token.reading, h, hv]
    exact .last hg
  | more l h ih =>
    have hr := Reading.more (gap_next l) (lexeme_next l) h ih
    rw [next_append] at hr
    rw [finish_of_ne_eof h]
    exact hr

/-- No other derivation is possible. -/
theorem finish_of_reading (h : Reading l.rest rs) : l.finish.1.map Token.reading = rs := by
  generalize ht : l.rest = t at h
  induction h generalizing l with
  | @last trivia hg =>
    have hs : Scan.ofText l.rest = ⟨trivia, .eof, [], []⟩ := by
      have h := Scan.ofText_of_gap (by rwa [List.append_nil]) .eof
      rw [List.append_nil, List.append_nil] at h
      rw [ht]
      exact h
    obtain ⟨hn, -⟩ := next_of_scan hs
    have hk : l.next.1.kind = .eof := by
      rw [hn]
      rfl
    rw [finish_of_eof hk, hn]
    rfl
  | @more kind trivia value rest rs hg hl hk _ ih =>
    have hs : Scan.ofText l.rest = ⟨trivia, kind, value, rest⟩ := by
      rw [ht]
      exact Scan.ofText_of_gap hg hl
    obtain ⟨hn, hr⟩ := next_of_scan hs
    have hk' : l.next.1.kind ≠ .eof := by
      rw [hn]
      exact hk
    rw [finish_of_ne_eof hk', List.map_cons, ih hr, hn]
    rfl

theorem reading_iff : Reading source rs ↔ (tokens source).map Token.reading = rs := by
  constructor
  · exact finish_of_reading (l := ofText source)
  · rintro rfl
    exact reading_finish (ofText source)

end Lexer

namespace Token

/-- What is read, in its places, when the first trivia starts at byte `start`. -/
def place (start : Nat) : List (Kind × Text × Text) → List Token
  | [] => []
  | (kind, trivia, value) :: rs =>
    ofScan start ⟨trivia, kind, value, []⟩ :: place (start + trivia.size + value.size) rs

end Token

namespace Lexer
variable {source : Text} {rs : List (Kind × Text × Text)}

theorem finish_eq_place (l : Lexer) :
    l.finish.1 = Token.place l.position (l.finish.1.map Token.reading) := by
  induction l using finish_induction with
  | last l h =>
    rw [finish_of_eof h]
    rfl
  | more l h ih =>
    rw [finish_of_ne_eof h]
    exact congrArg (l.next.1 :: ·) ih

theorem tokens_of_reading (h : Reading source rs) : tokens source = Token.place 0 rs := by
  rw [← reading_iff.mp h]
  exact finish_eq_place (ofText source)

end Lexer

namespace Reading
variable {s : Text} {rs : List (Kind × Text × Text)}

theorem ne_nil (h : Reading s rs) : rs ≠ [] := by
  cases h with
  | last | more => simp

theorem of_nil (h : Reading [] rs) : rs = [(.eof, [], [])] := by
  generalize hs : ([] : Text) = s at h
  cases h with
  | last => rw [← hs]
  | more hg hl hk =>
    have hv := (List.append_eq_nil_iff.mp (List.append_eq_nil_iff.mp hs.symm).2).1
    exact absurd hv (hl.value_ne_nil hk)

end Reading

end LexCalc
