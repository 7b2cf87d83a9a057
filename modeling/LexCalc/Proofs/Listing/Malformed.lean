import LexCalc.Proofs.Listing.Records
import LexCalc.Proofs.Token.Modes

/-! What a listing says of malformed tokens, told by the scanner of single characters. -/
namespace LexCalc
variable {t : Token}

/-- The line that is logged when a text ends in a mode. -/
def Mode.log : Mode → List Log.Line
  | .code | .line => []
  | .block b => [.debug s!"unterminated block comment starting at byte {b}"]
  | .str b => [.debug s!"unterminated string literal starting at byte {b}"]

namespace Mode
variable {m : Mode}

theorem log_of_opened_none (h : m.opened = none) : m.log = [] := by
  cases m with
  | code | line => rfl
  | block b | str b => cases h

theorem log_of_opened (h : m.opened = some (t.kind, t.span.start)) : m.log = t.log := by
  cases m with
  | code | line => cases h
  | block b | str b =>
    obtain ⟨hk, hb⟩ := Prod.mk.inj (Option.some.inj h)
    rw [Token.log, ← hk, ← hb]
    rfl

theorem exists_str_iff :
    (∃ b, m = .str b) ↔ ∃ b, m.opened = some (.unterminatedStringLiteral, b) := by
  cases m <;> simp [opened]

theorem exists_block_iff :
    (∃ b, m = .block b) ↔ ∃ b, m.opened = some (.unterminatedComment, b) := by
  cases m <;> simp [opened]

end Mode

namespace Token

theorem log_of_not_open (h : ¬ t.kind.isOpen) : t.log = [] := by
  obtain ⟨kind, _, _, _⟩ := t
  cases kind <;> first | rfl | exact absurd rfl h

theorem flatMap_log_of_not_open {ts : List Token} (h : ∀ t ∈ ts, ¬ t.kind.isOpen) :
    ts.flatMap log = [] := by
  rw [List.flatMap_eq_nil_iff]
  exact fun t ht => log_of_not_open (h t ht)

/-- A malformed token is an unknown character or lacks an end. -/
theorem countP_isError (ts : List Token) :
    ts.countP (·.kind.isError) = ts.countP (·.kind = .invalid) + ts.countP (·.kind.isOpen) := by
  induction ts with
  | nil => rfl
  | cons t ts ih =>
    have hk : (if t.kind.isError then 1 else 0) =
        (if t.kind = .invalid then 1 else 0) + if t.kind.isOpen then 1 else 0 := by
      cases t.kind <;> rfl
    simp only [List.countP_cons, decide_eq_true_eq, ih, hk]
    omega

end Token

namespace Lexer

theorem countP_isOpen (source : Text) :
    (tokens source).countP (·.kind.isOpen) =
      if (survey .code 0 source).1.opened.isSome then 1 else 0 := by
  rcases opened_cases source with ⟨hs, hn⟩ | ⟨front, t, ht, hn, ho, -, hs⟩
  · rw [hs, List.countP_eq_zero.mpr hn]
    rfl
  · have he : Kind.eof.isOpen = false := rfl
    rw [hs, ht, List.countP_append, List.countP_eq_zero.mpr hn]
    simp [ho, he]

theorem flatMap_log (source : Text) :
    (tokens source).flatMap Token.log = (survey .code 0 source).1.log := by
  rcases opened_cases source with ⟨hs, hn⟩ | ⟨front, t, ht, hn, -, -, hs⟩
  · rw [Mode.log_of_opened_none hs]
    exact Token.flatMap_log_of_not_open hn
  · rw [Mode.log_of_opened hs, ht, List.flatMap_append, Token.flatMap_log_of_not_open hn]
    exact List.append_nil t.log

end Lexer

namespace Listing

theorem errorCount_inLines (path : List UInt8) (starts : List Nat) (ts : List Token) :
    errorCount ⟨path, ts.map (Record.inLines starts)⟩ =
      ts.countP (·.kind = .invalid) + ts.countP (·.kind.isOpen) := by
  rw [← Token.countP_isError, errorCount, List.countP_map]
  rfl

/-- The malformed tokens of every text, what is logged of them and how many a listing counts, by
the scanner: the unknown characters that it meets in code, and a string or a comment if it ends in
one. -/
theorem malformed_survey (source : Text) :
    let ts := Lexer.tokens source
    let mode := (survey .code 0 source).1
    let bad := (survey .code 0 source).2
    ts.countP (·.kind = .invalid) = bad ∧
    ((∃ t ∈ ts, t.kind = .unterminatedStringLiteral) ↔ ∃ b, mode = .str b) ∧
    ((∃ t ∈ ts, t.kind = .unterminatedComment) ↔ ∃ b, mode = .block b) ∧
    (∀ kind b, mode.opened = some (kind, b) →
      ∃ front t, ts = front ++ [t, ⟨.eof, [], [], .point source.size⟩] ∧
        (∀ u ∈ front, ¬ u.kind.isOpen) ∧ t.kind = kind ∧ t.span = ⟨b, source.size⟩) ∧
    ts.flatMap Token.log = mode.log ∧
    ∃ records, Record.ofSource source = .ok records ∧
      ∀ path, errorCount ⟨path, records⟩ = bad + if mode.opened.isSome then 1 else 0 := by
  have hbad : (Lexer.tokens source).countP (·.kind = .invalid) = (survey .code 0 source).2 :=
    (Lexer.survey_rest (Lexer.ofText source)).2.symm
  refine ⟨hbad, ?_, ?_, ?_, Lexer.flatMap_log source, _, Record.ofSource_eq source, ?_⟩
  · rw [Mode.exists_str_iff]
    exact Lexer.exists_kind_iff rfl
  · rw [Mode.exists_block_iff]
    exact Lexer.exists_kind_iff rfl
  · intro kind b hb
    rcases Lexer.opened_cases source with ⟨hs, -⟩ | ⟨front, t, ht, hn, -, hstop, hs⟩
    · rw [hs] at hb
      cases hb
    · rw [hs] at hb
      cases hb
      exact ⟨front, t, ht, hn, rfl, by rw [← hstop]⟩
  · intro path
    rw [errorCount_inLines, hbad, Lexer.countP_isOpen]

end Listing

end LexCalc
