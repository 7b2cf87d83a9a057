import LexCalc.Calculation
import LexCalc.Proofs.Natural.Canonical
import LexCalc.Proofs.Natural.Digits
import LexCalc.Proofs.Text.Quoted
import LexCalc.Proofs.Text.Utf8

/-! The grammar of hexadecimal operands and the words that they are read as. Beside the reader stands
one that cuts the bytes of the digits into pieces of eight and converts each piece by a reader that
can refuse it; it never does. -/
namespace LexCalc

/-- The hexadecimal digits, letters of either case. -/
def HexDigit (c : Char) : Prop :=
  ('0' ≤ c ∧ c ≤ '9') ∨ ('a' ≤ c ∧ c ≤ 'f') ∨ ('A' ≤ c ∧ c ≤ 'F')

/-- What a text has after one `0x` or `0X` in front, or all of it if there is none. -/
inductive HexBody : Text → Text → Prop
  | lower {body : Text} : HexBody ('0' :: 'x' :: body) body
  | upper {body : Text} : HexBody ('0' :: 'X' :: body) body
  | bare {t : Text} (hl : ¬ ['0', 'x'] <+: t) (hu : ¬ ['0', 'X'] <+: t) : HexBody t t

namespace Word
variable {w : Word} {c : Char} {ds : Text}

/-- A number with one more digit at its end, unless it takes more than a word. -/
def pushHex? (w : Word) (c : Char) : Option Word := do
  let n := 16 * w.toNat + (← Natural.hexValue? c)
  if n < UInt32.size then some (UInt32.ofNat n) else none

/-- The word that a numeral denotes. A `+` may stand in front of the digits. -/
def ofHex? (t : Text) : Option Word :=
  let digits := BitCount.withoutSign t
  if digits.isEmpty then none else digits.foldlM pushHex? 0

theorem hexValue?_eq_some (hc : (Natural.hexValue? c).isSome) :
    Natural.hexValue? c = some (Natural.hexDigit c) := by
  obtain ⟨d, hd⟩ := Option.isSome_iff_exists.mp hc
  rw [Natural.hexDigit, hd, Option.getD_some]

/-- Digits fit as long as there is room for any digits in their places. -/
theorem exists_foldlM_pushHex? (hd : ∀ c ∈ ds, (Natural.hexValue? c).isSome)
    (hw : (w.toNat + 1) * 16 ^ ds.length ≤ UInt32.size) :
    ∃ v, ds.foldlM pushHex? w = some v ∧
      v.toNat = w.toNat * 16 ^ ds.length + Natural.hexNumber ds.reverse := by
  induction ds generalizing w with
  | nil => exact ⟨w, rfl, by simp [Natural.hexNumber]⟩
  | cons c ds ih =>
    have hlt := Natural.hexDigit_lt c
    have hroom : (16 * w.toNat + Natural.hexDigit c + 1) * 16 ^ ds.length ≤ UInt32.size := by
      calc _ ≤ (w.toNat + 1) * 16 * 16 ^ ds.length := Nat.mul_le_mul_right _ (by omega)
        _ = (w.toNat + 1) * 16 ^ (c :: ds).length := by rw [List.length_cons, pow_succ]; ring
        _ ≤ _ := hw
    have hfit : 16 * w.toNat + Natural.hexDigit c < UInt32.size :=
      Nat.lt_of_lt_of_le (Nat.lt_succ_self _)
        (Nat.le_trans (Nat.le_mul_of_pos_right _ (by positivity)) hroom)
    have hv := UInt32.toNat_ofNat_of_lt' hfit
    have hpush : pushHex? w c = some (UInt32.ofNat (16 * w.toNat + Natural.hexDigit c)) := by
      simp [pushHex?, hexValue?_eq_some (hd c List.mem_cons_self), hfit]
    obtain ⟨v, hf, hn⟩ := ih (w := UInt32.ofNat (16 * w.toNat + Natural.hexDigit c))
      (fun c hc => hd c (List.mem_cons_of_mem _ hc)) (by rwa [hv])
    refine ⟨v, ?_, ?_⟩
    · rw [List.foldlM_cons, hpush]
      exact hf
    · rw [hn, hv, List.reverse_cons, Natural.hexNumber, Natural.hexNumber, List.map_append,
        Nat.ofDigits_append, List.length_map, List.length_reverse, List.length_cons, pow_succ]
      simp only [List.map_cons, List.map_nil, Nat.ofDigits_singleton]
      ring

/-- Up to eight digits are the word that the reader without a `+` makes of them. -/
theorem ofHex?_eq (hd : ∀ c ∈ ds, (Natural.hexValue? c).isSome) (hn : ds ≠ [])
    (hl : ds.length ≤ 8) : ofHex? ds = some (Natural.wordOfHex ds.reverse) := by
  have hs : BitCount.withoutSign ds = ds := by
    unfold BitCount.withoutSign
    split
    · exact absurd (hd '+' List.mem_cons_self) (by decide)
    · rfl
  have hroom : ((0 : Word).toNat + 1) * 16 ^ ds.length ≤ UInt32.size := by
    rw [UInt32.toNat_zero, Nat.zero_add, Nat.one_mul]
    exact Nat.pow_le_pow_right (by decide) hl
  obtain ⟨v, hf, hv⟩ := exists_foldlM_pushHex? hd hroom
  have hw : v = Natural.wordOfHex ds.reverse := by
    rw [← UInt32.toNat_inj, hv, Natural.toNat_wordOfHex (by rwa [List.length_reverse])]
    simp
  rw [ofHex?, hs, hf, hw]
  simp [hn]

end Word

namespace Natural
variable {c : Char} {t body ds front back : Text}

/-- Pieces of eight bytes, cut off from the end. The last one has what is left at the front. -/
def piecesFromRight (bytes : List UInt8) : List (List UInt8) :=
  if bytes.length = 0 then []
  else bytes.drop (bytes.length - 8) :: piecesFromRight (bytes.take (bytes.length - 8))
termination_by bytes.length
decreasing_by rw [List.length_take]; omega

/-- The word of a piece, if it is UTF-8 and a numeral that a word can hold. -/
def pieceWord? (piece : List UInt8) : Option Word := (Text.ofUtf8? piece).bind Word.ofHex?

/-- Why an operand is refused that is read by pieces. -/
inductive OperandError where
  | hex (e : HexError)
  /-- A piece is not the numeral of a word. -/
  | piece (text : Text)
  deriving DecidableEq, Repr

def OperandError.message : OperandError → String
  | hex e => e.message
  | piece text => "Invalid hexadecimal digit " ++ String.ofList text.quoted

/-- Reads an operand as `ofHex` does, but converts its digits piece by piece. -/
def ofHexByPieces (text : Text) : Except OperandError Natural :=
  let digits := (hexBody text).filter (· ≠ '_')
  if digits.isEmpty then .error (.hex (.emptyOperand text))
  else
    match digits.find? fun c => (hexValue? c).isNone with
    | some c => .error (.hex (.invalidDigit c text))
    | none =>
      match (piecesFromRight (Text.toUtf8 digits)).mapM pieceWord? with
      | some ws => .ok (.ofWords ws)
      | none => .error (.piece text)

theorem hexDigit_iff : HexDigit c ↔ (hexValue? c).isSome := by
  unfold hexValue? HexDigit
  split_ifs with hd hl hu
  · simp [hd]
  · simp [hl]
  · simp [hu]
  · simp [hd, hl, hu]

theorem hexBody_iff : HexBody t body ↔ hexBody t = body := by
  constructor
  · intro h
    cases h with
    | lower | upper => rfl
    | bare hl hu =>
      unfold hexBody
      split
      · exact absurd ⟨_, rfl⟩ hl
      · exact absurd ⟨_, rfl⟩ hu
      · rfl
  · rintro rfl
    unfold hexBody
    split
    · exact .lower
    · exact .upper
    · next hl hu =>
      refine .bare ?_ ?_
      · rintro ⟨t', rfl⟩
        exact hl t' rfl
      · rintro ⟨t', rfl⟩
        exact hu t' rfl

/-- A digit is one byte. -/
theorem utf8Size_hexDigit (hc : (hexValue? c).isSome) : c.utf8Size = 1 := by
  have h1 : ∀ d < 16, d.digitChar.utf8Size = 1 ∧ d.digitChar.toUpper.utf8Size = 1 := by decide
  obtain ⟨hlt, he | he⟩ := digitOf_hexDigit hc
  · rw [he]
    exact (h1 _ hlt).1
  · rw [he]
    exact (h1 _ hlt).2

theorem length_toUtf8 (hd : ∀ c ∈ ds, (hexValue? c).isSome) :
    (Text.toUtf8 ds).length = ds.length := by
  rw [Text.length_toUtf8, Text.size_eq_length fun c hc => utf8Size_hexDigit (hd c hc)]

theorem piecesFromRight_nil : piecesFromRight [] = [] := by
  rw [piecesFromRight]
  rfl

/-- A piece is cut off after a whole number of pieces, or it is all that there is. -/
theorem piecesFromRight_append {xs ys : List UInt8} (hy : ys ≠ [])
    (h : ys.length = 8 ∨ ys.length ≤ 8 ∧ xs = []) :
    piecesFromRight (xs ++ ys) = ys :: piecesFromRight xs := by
  have hpos := List.length_pos_iff.mpr hy
  have hl : (xs ++ ys).length - 8 = xs.length := by
    rw [List.length_append]
    rcases h with h | ⟨h, rfl⟩
    · omega
    · rw [List.length_nil]
      omega
  rw [piecesFromRight, if_neg (by rw [List.length_append]; omega), hl, List.drop_left,
    List.take_left]

theorem pieceWord?_toUtf8 (hd : ∀ c ∈ ds, (hexValue? c).isSome) (hn : ds ≠ [])
    (hl : ds.length ≤ 8) : pieceWord? (Text.toUtf8 ds) = some (wordOfHex ds.reverse) := by
  rw [pieceWord?, Text.ofUtf8?_eq_some_iff.mpr rfl, Option.bind_some, Word.ofHex?_eq hd hn hl]

theorem isSome_of_mem_piece (hd : ∀ d ∈ c :: ds, (hexValue? d).isSome) :
    ∀ d ∈ (c :: ds.take 7).reverse, (hexValue? d).isSome := by
  intro d hm
  rw [List.mem_reverse, List.mem_cons] at hm
  exact hd d (List.mem_cons.mpr (hm.imp_right List.mem_of_mem_take))

/-- The last eight digits are the first piece. -/
theorem piecesFromRight_toUtf8 (hd : ∀ d ∈ c :: ds, (hexValue? d).isSome) :
    piecesFromRight (Text.toUtf8 (c :: ds).reverse) =
      Text.toUtf8 (c :: ds.take 7).reverse ::
        piecesFromRight (Text.toUtf8 (ds.drop 7).reverse) := by
  have hs : Text.toUtf8 (c :: ds).reverse =
      Text.toUtf8 (ds.drop 7).reverse ++ Text.toUtf8 (c :: ds.take 7).reverse := by
    rw [← Text.toUtf8_append, ← List.reverse_append, List.cons_append, List.take_append_drop]
  have hl : (Text.toUtf8 (c :: ds.take 7).reverse).length = min 7 ds.length + 1 := by
    rw [length_toUtf8 (isSome_of_mem_piece hd), List.length_reverse, List.length_cons,
      List.length_take]
  rw [hs]
  apply piecesFromRight_append
  · rw [← List.length_pos_iff, hl]
    exact Nat.succ_pos _
  · rcases Nat.lt_or_ge ds.length 7 with h7 | h7
    · refine .inr ⟨by omega, ?_⟩
      rw [List.drop_of_length_le h7.le]
      rfl
    · exact .inl (by omega)

/-- Read by pieces, digits are the words that are cut off them. -/
theorem mapM_pieceWord? (formed : List Word) (ds : Text) (hd : ∀ c ∈ ds, (hexValue? c).isSome) :
    ((piecesFromRight (Text.toUtf8 ds.reverse)).mapM pieceWord?).map (formed.reverse ++ ·) =
      some (wordsOfHex ds formed) := by
  fun_induction wordsOfHex ds formed with
  | case1 formed => simp [Text.toUtf8, piecesFromRight_nil]
  | case2 formed c ds ih =>
    have hi := ih fun d hm => hd d (List.mem_cons_of_mem _ (List.mem_of_mem_drop hm))
    have hw : pieceWord? (Text.toUtf8 (c :: ds.take 7).reverse) =
        some (wordOfHex (c :: ds.take 7)) := by
      rw [pieceWord?_toUtf8 (isSome_of_mem_piece hd) (by simp) (by simp), List.reverse_reverse]
    rw [piecesFromRight_toUtf8 hd, List.mapM_cons, hw, ← hi, List.reverse_cons]
    cases (piecesFromRight (Text.toUtf8 (ds.drop 7).reverse)).mapM pieceWord? with
    | none => rfl
    | some ws => simp

/-- No piece of the digits is refused. -/
theorem mapM_pieceWord?_toUtf8 (hd : ∀ c ∈ ds, (hexValue? c).isSome) :
    (piecesFromRight (Text.toUtf8 ds)).mapM pieceWord? = some (wordsOfHex ds.reverse []) := by
  have h := mapM_pieceWord? [] ds.reverse fun c hc => hd c (List.mem_reverse.mp hc)
  simpa using h

theorem ofHex_of_nil (h : (hexBody t).filter (· ≠ '_') = []) :
    ofHex t = .error (.emptyOperand t) := by
  rw [ofHex, h]
  rfl

/-- The first character that is no digit is named. -/
theorem ofHex_of_not_hexDigit (h : (hexBody t).filter (· ≠ '_') = front ++ c :: back)
    (hf : ∀ d ∈ front, HexDigit d) (hc : ¬ HexDigit c) :
    ofHex t = .error (.invalidDigit c t) := by
  have hfind : (front ++ c :: back).find? (fun c => (hexValue? c).isNone) = some c := by
    rw [List.find?_eq_some_iff_append]
    refine ⟨?_, front, back, rfl, ?_⟩
    · simpa [hexDigit_iff] using hc
    · intro d hd
      have hs := hexDigit_iff.mp (hf d hd)
      simpa [Option.isSome_iff_ne_none] using hs
  rw [ofHex, h]
  simp [hfind]

/-- Reading by pieces comes to the same, so no operand is refused for a piece of it. -/
theorem ofHexByPieces_eq (t : Text) : ofHexByPieces t = (ofHex t).mapError .hex := by
  rw [ofHexByPieces, ofHex]
  generalize (hexBody t).filter (· ≠ '_') = digits
  split_ifs with hn
  · rfl
  cases hfind : digits.find? fun c => (hexValue? c).isNone with
  | some c => rfl
  | none =>
    have hd : ∀ c ∈ digits, (hexValue? c).isSome := by
      intro c hc
      have := List.find?_eq_none.mp hfind c hc
      simpa [Option.isSome_iff_ne_none] using this
    dsimp only
    rw [mapM_pieceWord?_toUtf8 hd]
    rfl

end Natural

namespace Calculation

theorem hexOperand_eq_ok_iff {t : Text} {a : Natural} :
    hexOperand t = .ok a ↔ Natural.ofHex t = .ok a := by
  unfold hexOperand
  cases Natural.ofHex t with
  | ok b => simp
  | error e => simp

theorem hexOperand_of_error {t : Text} {e : HexError} (h : Natural.ofHex t = .error e) :
    hexOperand t = .error (.validation e.message) := by rw [hexOperand, h]

theorem message_emptyOperand (t : Text) :
    ∃ whole, Text.Spelling '"' t whole ∧ (HexError.emptyOperand t).message =
      "Empty hexadecimal operand: \"" ++ String.ofList whole ++ "\"" := by
  refine ⟨_, Text.spelling_escape '"' t, ?_⟩
  change "Empty hexadecimal operand: " ++ String.ofList t.quoted = _
  rw [Text.ofList_quoted]
  simp only [← String.append_assoc, String.reduceAppend]

theorem message_invalidDigit (c : Char) (t : Text) :
    ∃ digit whole, Text.Spelling '\x27' [c] digit ∧ Text.Spelling '"' t whole ∧
      (HexError.invalidDigit c t).message = "Invalid hexadecimal digit '" ++
        String.ofList digit ++ "' in \"" ++ String.ofList whole ++ "\"" := by
  refine ⟨_, _, Text.spelling_escape '\x27' [c], Text.spelling_escape '"' t, ?_⟩
  have hopen : "Invalid hexadecimal digit " ++ "'" = "Invalid hexadecimal digit '" := by
    simp only [String.reduceAppend]
  have hclose : "'" ++ (" in " ++ "\"") = "' in \"" := by simp only [String.reduceAppend]
  change "Invalid hexadecimal digit " ++ String.ofList (Text.quotedChar c) ++ " in " ++
    String.ofList t.quoted = _
  rw [Text.ofList_quotedChar, Text.ofList_quoted, List.flatMap_singleton, ← hopen, ← hclose]
  simp only [String.append_assoc]

/-- An operand is read exactly if there are digits, and nothing but digits and `_`, after a prefix
that may be missing. Every eight digits from the right make a word, also where they are zeros, and
so do those that are left. Otherwise the operand is quoted, with the first character that is no
digit if there is one. Converting the digits piece by piece never fails. -/
theorem hexOperand_grammar (t : Text) :
    ∃ body, HexBody t body ∧
      let digits := body.filter (· ≠ '_')
      ((∃ a, hexOperand t = .ok a) ↔ digits ≠ [] ∧ ∀ c ∈ digits, HexDigit c) ∧
      (∀ a, hexOperand t = .ok a → ∃ ws, a = .ofWords ws ∧
        ws.length = (digits.length + 7) / 8 ∧ Numeral 16 digits ws.value ∧
        (Natural.piecesFromRight (Text.toUtf8 digits)).mapM Natural.pieceWord? = some ws) ∧
      (digits = [] → ∃ whole, Text.Spelling '"' t whole ∧ hexOperand t =
        .error (.validation ("Empty hexadecimal operand: \"" ++ String.ofList whole ++ "\""))) ∧
      (∀ front c back, digits = front ++ c :: back → (∀ d ∈ front, HexDigit d) → ¬ HexDigit c →
        ∃ digit whole, Text.Spelling '\x27' [c] digit ∧ Text.Spelling '"' t whole ∧
          hexOperand t = .error (.validation ("Invalid hexadecimal digit '" ++
            String.ofList digit ++ "' in \"" ++ String.ofList whole ++ "\""))) ∧
      Natural.ofHexByPieces t = (Natural.ofHex t).mapError .hex := by
  refine ⟨Natural.hexBody t, Natural.hexBody_iff.mpr rfl, ?_, ?_, ?_, ?_,
    Natural.ofHexByPieces_eq t⟩
  · simp only [hexOperand_eq_ok_iff, Natural.ofHex_eq_ok_iff, Natural.hexDigit_iff]
    constructor
    · rintro ⟨a, hn, hd, -⟩
      exact ⟨hn, hd⟩
    · rintro ⟨hn, hd⟩
      exact ⟨_, hn, hd, rfl⟩
  · intro a ha
    obtain ⟨-, hd, rfl⟩ := Natural.ofHex_eq_ok_iff.mp (hexOperand_eq_ok_iff.mp ha)
    refine ⟨_, rfl, ?_, ?_, Natural.mapM_pieceWord?_toUtf8 hd⟩
    · rw [Natural.length_wordsOfHex, List.length_reverse, List.length_nil, Nat.zero_add]
    · have hv := numeral_of_digit fun c hc => Natural.digitOf_hexDigit (hd c hc)
      simpa [Natural.value_wordsOfHex, Natural.hexNumber] using hv
  · intro hn
    obtain ⟨whole, hw, hm⟩ := message_emptyOperand t
    refine ⟨whole, hw, ?_⟩
    rw [hexOperand_of_error (Natural.ofHex_of_nil hn), hm]
  · intro front c back hs hf hc
    obtain ⟨digit, whole, hd, hw, hm⟩ := message_invalidDigit c t
    refine ⟨digit, whole, hd, hw, ?_⟩
    rw [hexOperand_of_error (Natural.ofHex_of_not_hexDigit hs hf hc), hm]

/-- A `_` in front of the prefix leaves its letter among the digits. -/
theorem hexOperand_grammar_underscore :
    hexOperand ['_', '0', 'x', '1'] =
      .error (.validation "Invalid hexadecimal digit 'x' in \"_0x1\"") := by
  obtain ⟨body, hb, -, -, -, hbad, -⟩ := hexOperand_grammar ['_', '0', 'x', '1']
  cases hb with
  | bare =>
    have h0 : ∀ d ∈ ['0'], HexDigit d := by
      intro d hd
      rw [List.mem_singleton.mp hd]
      exact .inl (by decide)
    have hx : ¬ HexDigit 'x' := by
      unfold HexDigit
      decide
    obtain ⟨digit, whole, hd, hw, he⟩ := hbad ['0'] 'x' ['1'] (by decide) h0 hx
    rw [he, hd.eq_of_plain (by simp [Text.Plain]), hw.eq_of_plain (by simp [Text.Plain])]
    rfl

end Calculation
end LexCalc
