import LexCalc.Proofs.Token.Reading

/-! Tokens written down one after another, with whitespace between them, are read back as they
were. -/
namespace LexCalc
variable {kind : Kind} {value last : Text}

/-- The ways to write down a token that has an end of its own. -/
inductive Spelling : Kind → Text → Prop
  | word {c : Char} {w : Text} {kind : Kind} (hc : WordStart c) (hw : ∀ d ∈ w, WordPart d)
      (hk : WordKind (c :: w) kind) : Spelling kind (c :: w)
  | number {digits : Text} (hn : digits ≠ []) (hd : ∀ d ∈ digits, Digit d) :
      Spelling .numericLiteral digits
  | string {body : Text} (hb : '"' ∉ body) : Spelling .stringLiteral ('"' :: (body ++ ['"']))
  | pair {c d : Char} {kind : Kind} (hk : ((c, d), kind) ∈ Kind.pairs) : Spelling kind [c, d]
  | single {c : Char} {kind : Kind} (hk : (c, kind) ∈ Kind.singles) : Spelling kind [c]
  | invalid {c : Char} (hb : ¬ Blank c) (hw : ¬ WordStart c) (hd : ¬ Digit c) (hq : c ≠ '"')
      (hs : ∀ k, (c, k) ∉ Kind.singles) : Spelling .invalid [c]

namespace Spelling

/-- In front of whitespace, and at the end of a text, a token is read as it is spelled. -/
theorem lexeme {rest : Text} (h : Spelling kind value) (hr : ∀ d ∈ rest.head?, Blank d) :
    Lexeme kind value rest := by
  cases h with
  | word hc hw hk => exact .word hc hw hk fun d hd => not_wordPart_of_blank (hr d hd)
  | number hn hd =>
    obtain ⟨c, w, rfl⟩ := List.exists_cons_of_ne_nil hn
    rw [List.forall_mem_cons] at hd
    exact .number hd.1 hd.2 fun d hd => not_digit_of_blank (hr d hd)
  | string hb => exact .string hb
  | pair hk => exact .pair hk
  | single hk =>
    refine .single hk ?_ ?_
    · exact fun d hd => not_pair_of_blank (hr d hd) _
    · exact fun _ d hd => not_comment_of_blank (hr d hd)
  | invalid hb hw hd hq hs => exact .invalid hb hw hd hq hs

theorem value_ne_nil (h : Spelling kind value) : value ≠ [] := by
  cases h with
  | number hn => exact hn
  | word | string | pair | single | invalid => simp

theorem kind_ne_eof (h : Spelling kind value) : kind ≠ .eof := by
  rintro rfl
  have hl : Lexeme .eof value [] := h.lexeme (by simp)
  exact h.value_ne_nil (conforms_of_lexeme hl).1

end Spelling

/-- A token to be written down, after some whitespace. -/
structure Printed where
  separator : Text
  kind : Kind
  value : Text
  blank : ∀ c ∈ separator, Blank c
  spelling : Spelling kind value

namespace Printed

/-- The tokens with their whitespace one after another, and more whitespace at the end. -/
def text : List Printed → Text → Text
  | [], last => last
  | p :: ps, last => p.separator ++ (p.value ++ text ps last)

theorem blank_of_head?_text {ps : List Printed} (ha : ∀ p ∈ ps, p.separator ≠ [])
    (hl : ∀ c ∈ last, Blank c) : ∀ d ∈ (text ps last).head?, Blank d := by
  intro d hd
  cases ps with
  | nil => exact hl d (List.mem_of_mem_head? hd)
  | cons p ps =>
    obtain ⟨c, s, hs⟩ := List.exists_cons_of_ne_nil (ha p (by simp))
    rw [text, hs] at hd
    cases hd
    exact p.blank d (by simp [hs])

/-- Printed tokens are a derivation of their text. -/
theorem reading_text {ps : List Printed} (ha : ∀ p ∈ ps.tail, p.separator ≠ [])
    (hl : ∀ c ∈ last, Blank c) :
    Reading (text ps last)
      (ps.map (fun p => (p.kind, p.separator, p.value)) ++ [(.eof, last, [])]) := by
  induction ps with
  | nil => exact .last (.of_blank hl)
  | cons p ps ih =>
    have hb := blank_of_head?_text ha hl
    exact .more (.of_blank p.blank) (p.spelling.lexeme hb) p.spelling.kind_ne_eof
      (ih fun q hq => ha q (List.mem_of_mem_tail hq))

end Printed

namespace Lexer
variable {l : Lexer}

theorem finish_text (ps : List Printed) (ha : ∀ p ∈ ps.tail, p.separator ≠ [])
    (hl : ∀ c ∈ last, Blank c) (hr : l.rest = Printed.text ps last) :
    l.finish.1.map Token.reading =
      ps.map (fun p => (p.kind, p.separator, p.value)) ++ [(.eof, last, [])] := by
  apply finish_of_reading
  rw [hr]
  exact Printed.reading_text ha hl

/-- Printed tokens are read back in their order, each with the whitespace that was written before
it, and then the end with the whitespace that was written last. Only between two tokens must there
be any. -/
theorem tokens_text (ps : List Printed) (ha : ∀ p ∈ ps.tail, p.separator ≠ [])
    (hl : ∀ c ∈ last, Blank c) :
    (tokens (Printed.text ps last)).map Token.reading =
      ps.map (fun p => (p.kind, p.separator, p.value)) ++ [(.eof, last, [])] :=
  finish_text ps ha hl rfl

theorem tokens_text_slash_quoted :
    (tokens ['/', '\n', '"', '/', '*', '"', ' ']).map Token.reading =
      [(.slash, [], ['/']), (.stringLiteral, ['\n'], ['"', '/', '*', '"']), (.eof, [' '], [])] :=
  tokens_text
    [⟨[], .slash, ['/'], by simp, .single (by decide)⟩,
     ⟨['\n'], .stringLiteral, ['"', '/', '*', '"'], by simp [Blank],
      @Spelling.string ['/', '*'] (by decide)⟩]
    (by simp) (by simp [Blank])

end Lexer

end LexCalc
