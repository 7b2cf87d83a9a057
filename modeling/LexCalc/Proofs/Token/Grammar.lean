import LexCalc.Token.Scan

/-! The lexical grammar apart from the scanner: character classes, the characters of each kind of
token and what may follow them. -/
namespace LexCalc
variable {c : Char} {t : Text}

/-- The six whitespace characters. -/
def Blank (c : Char) : Prop := c ∈ [' ', '\t', '\n', '\x0b', '\x0c', '\r']

def Digit (c : Char) : Prop := '0' ≤ c ∧ c ≤ '9'

def WordStart (c : Char) : Prop :=
  ('A' ≤ c ∧ c ≤ 'Z') ∨ ('a' ≤ c ∧ c ≤ 'z') ∨ c = '_' ∨ c = '$'

def WordPart (c : Char) : Prop := WordStart c ∨ Digit c

theorem isSpace_iff : isSpace c = true ↔ Blank c := by
  simp [isSpace, Blank, or_assoc]

theorem isDigit_iff : c.isDigit = true ↔ Digit c := by
  simp [Char.isDigit, Digit, Char.le_def]

theorem isWordStart_iff : isWordStart c = true ↔ WordStart c := by
  have hu : c.isUpper = decide ('A' ≤ c ∧ c ≤ 'Z') := rfl
  have hl : c.isLower = (decide ('a' ≤ c) && decide (c ≤ 'z')) := rfl
  have ha : c.isAlpha = (c.isUpper || c.isLower) := rfl
  simp [isWordStart, WordStart, ha, hu, hl, or_assoc]

theorem isWordPart_iff : isWordPart c = true ↔ WordPart c := by
  simp [isWordPart, WordPart, isWordStart_iff, isDigit_iff]

instance : DecidablePred Blank := fun c => decidable_of_iff _ (isSpace_iff (c := c))

instance : DecidablePred Digit := fun c => decidable_of_iff _ (isDigit_iff (c := c))

instance : DecidablePred WordStart := fun c => decidable_of_iff _ (isWordStart_iff (c := c))

instance : DecidablePred WordPart := fun c => decidable_of_iff _ (isWordPart_iff (c := c))

/-- A reserved word has the kind that the table gives it, any other word is an identifier. -/
def WordKind (word : Text) (kind : Kind) : Prop :=
  (word, kind) ∈ Kind.words ∨ kind = .identifier ∧ ∀ k, (word, k) ∉ Kind.words

/-- The characters of a token of some kind, and the text after it. A token is as long as the
grammar allows: what follows is part of the rule. -/
inductive Lexeme : Kind → Text → Text → Prop
  | eof : Lexeme .eof [] []
  | word {c : Char} {w rest : Text} {kind : Kind} (hc : WordStart c) (hw : ∀ d ∈ w, WordPart d)
      (hk : WordKind (c :: w) kind) (hr : ∀ d ∈ rest.head?, ¬ WordPart d) :
      Lexeme kind (c :: w) rest
  | number {c : Char} {w rest : Text} (hc : Digit c) (hw : ∀ d ∈ w, Digit d)
      (hr : ∀ d ∈ rest.head?, ¬ Digit d) : Lexeme .numericLiteral (c :: w) rest
  | string {body rest : Text} (hb : '"' ∉ body) :
      Lexeme .stringLiteral ('"' :: (body ++ ['"'])) rest
  | openString {body : Text} (hb : '"' ∉ body) :
      Lexeme .unterminatedStringLiteral ('"' :: body) []
  | openComment {body : Text} (hb : ¬ ['*', '/'] <:+: body) :
      Lexeme .unterminatedComment ('/' :: '*' :: body) []
  | pair {c d : Char} {rest : Text} {kind : Kind} (hk : ((c, d), kind) ∈ Kind.pairs) :
      Lexeme kind [c, d] rest
  /-- A slash in front of `/` or `*` would open a comment. -/
  | single {c : Char} {rest : Text} {kind : Kind} (hk : (c, kind) ∈ Kind.singles)
      (hp : ∀ d ∈ rest.head?, ∀ k, ((c, d), k) ∉ Kind.pairs)
      (hs : c = '/' → ∀ d ∈ rest.head?, d ≠ '/' ∧ d ≠ '*') : Lexeme kind [c] rest
  | invalid {c : Char} {rest : Text} (hb : ¬ Blank c) (hw : ¬ WordStart c) (hd : ¬ Digit c)
      (hq : c ≠ '"') (hs : ∀ k, (c, k) ∉ Kind.singles) : Lexeme .invalid [c] rest

/-- The forms that kinds of tokens have. -/
inductive Form where
  | eof
  | word
  | number
  | string
  | openString
  | openComment
  | pair
  | single
  | invalid
  deriving DecidableEq

def Kind.form : Kind → Form
  | .eof => .eof
  | .identifier => .word
  | .numericLiteral => .number
  | .stringLiteral => .string
  | .unterminatedStringLiteral => .openString
  | .unterminatedComment => .openComment
  | .invalid => .invalid
  | kind =>
    if kind ∈ words.map Prod.snd then .word
    else if kind ∈ pairs.map Prod.snd then .pair
    else .single

/-- What the kind of a token says about its characters and about the text after it. -/
def Conforms (kind : Kind) (value rest : Text) : Prop :=
  match kind.form with
  | .eof => value = [] ∧ rest = []
  | .word =>
    (∃ c w, value = c :: w ∧ WordStart c ∧ ∀ d ∈ w, WordPart d) ∧ WordKind value kind ∧
      ∀ d ∈ rest.head?, ¬ WordPart d
  | .number => value ≠ [] ∧ (∀ d ∈ value, Digit d) ∧ ∀ d ∈ rest.head?, ¬ Digit d
  | .string => ∃ body, value = '"' :: (body ++ ['"']) ∧ '"' ∉ body
  | .openString => ∃ body, value = '"' :: body ∧ '"' ∉ body ∧ rest = []
  | .openComment => ∃ body, value = '/' :: '*' :: body ∧ ¬ ['*', '/'] <:+: body ∧ rest = []
  | .pair => ∃ c d, value = [c, d] ∧ ((c, d), kind) ∈ Kind.pairs
  | .single =>
    ∃ c, value = [c] ∧ (c, kind) ∈ Kind.singles ∧
      (∀ d ∈ rest.head?, ∀ k, ((c, d), k) ∉ Kind.pairs) ∧
      (c = '/' → ∀ d ∈ rest.head?, d ≠ '/' ∧ d ≠ '*')
  | .invalid =>
    ∃ c, value = [c] ∧ ¬ Blank c ∧ ¬ WordStart c ∧ ¬ Digit c ∧ c ≠ '"' ∧
      ∀ k, (c, k) ∉ Kind.singles

theorem form_of_wordKind {w : Text} {kind : Kind} (h : WordKind w kind) : kind.form = .word := by
  have ha : ∀ p ∈ Kind.words, p.2.form = .word := by decide
  rcases h with h | ⟨rfl, -⟩
  · exact ha _ h
  · rfl

theorem form_of_pair {d : Char} {kind : Kind} (h : ((c, d), kind) ∈ Kind.pairs) :
    kind.form = .pair := by
  have ha : ∀ p ∈ Kind.pairs, p.2.form = .pair := by decide
  exact ha _ h

theorem form_of_single {kind : Kind} (h : (c, kind) ∈ Kind.singles) : kind.form = .single := by
  have ha : ∀ p ∈ Kind.singles, p.2.form = .single := by decide
  exact ha _ h

/-- The rules of the grammar read backwards: the kind alone tells which rule was used. -/
theorem conforms_of_lexeme {kind : Kind} {value rest : Text} (h : Lexeme kind value rest) :
    Conforms kind value rest := by
  unfold Conforms
  cases h with
  | eof => exact ⟨rfl, rfl⟩
  | word hc hw hk hr =>
    rw [form_of_wordKind hk]
    exact ⟨⟨_, _, rfl, hc, hw⟩, hk, hr⟩
  | number hc hw hr => exact ⟨by simp, List.forall_mem_cons.mpr ⟨hc, hw⟩, hr⟩
  | string hb => exact ⟨_, rfl, hb⟩
  | openString hb => exact ⟨_, rfl, hb, rfl⟩
  | openComment hb => exact ⟨_, rfl, hb, rfl⟩
  | pair hk =>
    rw [form_of_pair hk]
    exact ⟨_, _, rfl, hk⟩
  | single hk hp hs =>
    rw [form_of_single hk]
    exact ⟨_, rfl, hk, hp, hs⟩
  | invalid hb hw hd hq hs => exact ⟨_, rfl, hb, hw, hd, hq, hs⟩

/-- A text that does not start with whitespace, a line comment or a closed block comment. -/
structure Clear (t : Text) : Prop where
  blank : ∀ c ∈ t.head?, ¬ Blank c
  line : ¬ ['/', '/'] <+: t
  block : ∀ body, t = '/' :: '*' :: body → ¬ ['*', '/'] <:+: body

theorem lookup_eq_some_iff {α β : Type} [BEq α] [LawfulBEq α] {table : List (α × β)} {x : α} {y : β}
    (h : (table.map Prod.fst).Nodup) : table.lookup x = some y ↔ (x, y) ∈ table := by
  induction table with
  | nil => simp
  | cons p table ih =>
    obtain ⟨x', y'⟩ := p
    rw [List.map_cons, List.nodup_cons] at h
    rw [List.lookup_cons, List.mem_cons, Prod.mk.injEq]
    by_cases hx : x = x'
    · subst x'
      have hn : (x, y) ∉ table := fun hm => h.1 (List.mem_map.mpr ⟨(x, y), hm, rfl⟩)
      simp [hn, eq_comm]
    · have hb : (x == x') = false := beq_eq_false_iff_ne.mpr hx
      simp [hx, hb, ih h.2]

theorem lookup_eq_none_iff {α β : Type} [BEq α] [LawfulBEq α] {table : List (α × β)} {x : α}
    (h : (table.map Prod.fst).Nodup) : table.lookup x = none ↔ ∀ y, (x, y) ∉ table := by
  simp only [Option.eq_none_iff_forall_ne_some, ne_eq, lookup_eq_some_iff h]

theorem ofWord?_eq_some_iff {w : Text} {kind : Kind} :
    Kind.ofWord? w = some kind ↔ (w, kind) ∈ Kind.words :=
  lookup_eq_some_iff (by decide)

theorem ofPair?_eq_some_iff {d : Char} {kind : Kind} :
    Kind.ofPair? c d = some kind ↔ ((c, d), kind) ∈ Kind.pairs :=
  lookup_eq_some_iff (by decide)

theorem ofSingle?_eq_some_iff {kind : Kind} :
    Kind.ofSingle? c = some kind ↔ (c, kind) ∈ Kind.singles :=
  lookup_eq_some_iff (by decide)

theorem ofWord?_eq_none_iff {w : Text} : Kind.ofWord? w = none ↔ ∀ k, (w, k) ∉ Kind.words :=
  lookup_eq_none_iff (by decide)

theorem ofPair?_eq_none_iff {d : Char} :
    Kind.ofPair? c d = none ↔ ∀ k, ((c, d), k) ∉ Kind.pairs :=
  lookup_eq_none_iff (by decide)

theorem ofSingle?_eq_none_iff : Kind.ofSingle? c = none ↔ ∀ k, (c, k) ∉ Kind.singles :=
  lookup_eq_none_iff (by decide)

theorem wordKind_eq_iff {w : Text} {kind : Kind} :
    Value.wordKind w = kind ↔ WordKind w kind := by
  unfold Value.wordKind WordKind
  cases h : Kind.ofWord? w with
  | none =>
    have hn := ofWord?_eq_none_iff.mp h
    simp [hn, eq_comm]
  | some k =>
    have hk := ofWord?_eq_some_iff.mp h
    have hi : ¬ ∀ k, (w, k) ∉ Kind.words := fun hn => hn k hk
    rw [Option.getD_some, ← ofWord?_eq_some_iff, h]
    simp [hi]

end LexCalc
