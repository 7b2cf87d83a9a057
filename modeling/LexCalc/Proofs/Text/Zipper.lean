import LexCalc.Text.Cursor
import LexCalc.Proofs.Text.Slice
import LexCalc.Proofs.Text.Utf8

/-! A cursor over bytes moves as a place between the characters of the text does: what it shows are
the characters ahead of that place, and it never stands inside one. -/
namespace LexCalc

namespace Text
variable {t front mid back : Text} {k n : Nat}

theorem size_utf8Encode (t : Text) : t.utf8Encode.size = t.size := by
  rw [List.utf8Encode, List.size_toByteArray, ← length_toUtf8]
  rfl

theorem getElem?_utf8Encode (t : Text) (n : Nat) : t.utf8Encode[n]? = (toUtf8 t)[n]? := by
  have hl : t.utf8Encode.size = (toUtf8 t).length := by rw [size_utf8Encode, length_toUtf8]
  by_cases h : n < (toUtf8 t).length
  · rw [List.getElem?_eq_getElem h, getElem?_pos _ _ (hl.symm ▸ h)]
    exact congrArg some List.getElem_toByteArray
  · rw [List.getElem?_eq_none (Nat.le_of_not_lt h), getElem?_neg _ _ (hl.symm ▸ h)]

/-- The byte at an offset is one of the bytes of the character there. -/
theorem getElem?_utf8Encode_append (front : Text) (c : Char) (back : Text)
    (hk : k < c.utf8Size) :
    (front ++ c :: back).utf8Encode[front.size + k]? = (String.utf8EncodeChar c)[k]? := by
  rw [getElem?_utf8Encode, toUtf8_append, toUtf8_cons, ← length_toUtf8 front,
    List.getElem?_append_right (Nat.le_add_right _ _), Nat.add_sub_cancel_left,
    List.getElem?_append_left (by rwa [String.length_utf8EncodeChar])]

/-- Behind the bytes of the characters in front stand those of the next one. -/
theorem utf8DecodeChar?_append (front back : Text) :
    (front ++ back).utf8Encode.utf8DecodeChar? front.size = back.head? := by
  have he : (front ++ back).utf8Encode.extract front.size (front ++ back).utf8Encode.size =
      back.utf8Encode := by
    rw [List.utf8Encode_append]
    exact ByteArray.extract_append_eq_right (size_utf8Encode front).symm ByteArray.size_append
  rw [ByteArray.utf8DecodeChar?_eq_utf8DecodeChar?_extract, he]
  cases back with
  | nil => rfl
  | cons c back => exact List.utf8DecodeChar?_utf8Encode_cons

/-- The characters between two offsets are read back from their bytes. -/
theorem textBetween_append (front mid back : Text) :
    Cursor.textBetween (front ++ mid ++ back).utf8Encode (front ++ mid).size front.size = mid := by
  induction mid generalizing front with
  | nil => rw [Cursor.textBetween, if_neg (by rw [List.append_nil]; exact Nat.lt_irrefl _)]
  | cons c mid ih =>
    have hc := c.utf8Size_pos
    have hd := utf8DecodeChar?_append front (c :: (mid ++ back))
    have hi := ih (front ++ [c])
    have hs : (front ++ [c]).size = front.size + c.utf8Size := by simp
    have hlt : front.size < (front ++ c :: mid).size := by
      rw [size_append, size_cons]
      omega
    have ha : front ++ [c] ++ mid = front ++ c :: mid := by simp
    rw [ha, hs] at hi
    rw [Cursor.textBetween, if_pos hlt]
    rw [← List.cons_append, ← List.append_assoc] at hd
    rw [hd]
    exact congrArg (c :: ·) hi

theorem Sequence.toNat_of_lt {b : UInt8} {tail : List UInt8} (h : Sequence b tail n)
    (hb : b < 128) : b.toNat = n := by
  rw [UInt8.lt_iff_toNat_lt] at hb
  cases h with
  | one | two | three | four =>
    simp only [UInt8.toNat_ofNat', UInt8.reduceToNat] at hb ⊢
    omega

end Text

namespace Cursor

/-- What moves a cursor. A predicate may carry a state along. -/
inductive Move where
  | advance
  | eatWhile {σ : Type} (p : σ → Char → Bool × σ) (s : σ)

end Cursor

/-- A text with a place between two of its characters. -/
structure Zipper where
  passed : Text
  ahead : Text
  deriving DecidableEq, Repr

section Asking
variable {σ : Type}

/-- What `p` answers about one character after another, and the state that it comes to. -/
def answers (p : σ → Char → Bool × σ) (s : σ) : Text → List Bool × σ
  | [] => ([], s)
  | c :: t => ((p s c).1 :: (answers p (p s c).2 t).1, (answers p (p s c).2 t).2)

/-- Cuts a text before the first character that `p` refuses, with the state that `p` comes to. -/
def cutWhile (p : σ → Char → Bool × σ) (s : σ) : Text → (Text × Text) × σ
  | [] => (([], []), s)
  | c :: t =>
    match p s c with
    | (false, s) => (([], c :: t), s)
    | (true, s) => ((c :: (cutWhile p s t).1.1, (cutWhile p s t).1.2), (cutWhile p s t).2)

/-- The predicate that also notes what it is asked about. -/
def noted (p : σ → Char → Bool × σ) (s : σ × Text) (c : Char) : Bool × (σ × Text) :=
  ((p s.1 c).1, ((p s.1 c).2, s.2 ++ [c]))

variable {p : σ → Char → Bool × σ} {s : σ} {t longer : Text}

theorem cutWhile_append (p : σ → Char → Bool × σ) (s : σ) (t : Text) :
    (cutWhile p s t).1.1 ++ (cutWhile p s t).1.2 = t := by
  induction t generalizing s with
  | nil => rfl
  | cons c t ih => rcases hp : p s c with ⟨_ | _, u⟩ <;> simp [cutWhile, hp, ih]

/-- The characters in front are accepted, and the next one is refused. -/
theorem answers_cutWhile (p : σ → Char → Bool × σ) (s : σ) (t : Text) :
    answers p s ((cutWhile p s t).1.1 ++ (cutWhile p s t).1.2.take 1) =
      (List.replicate (cutWhile p s t).1.1.length true ++
        ((cutWhile p s t).1.2.take 1).map (fun _ => false), (cutWhile p s t).2) := by
  induction t generalizing s with
  | nil => rfl
  | cons c t ih =>
    rcases hp : p s c with ⟨_ | _, u⟩
    · simp [cutWhile, hp, answers]
    · simp [cutWhile, hp, answers, ih, List.replicate_succ]

theorem isPrefix_cutWhile (hl : longer <+: t) (ha : false ∉ (answers p s longer).1) :
    longer <+: (cutWhile p s t).1.1 := by
  induction t generalizing s longer with
  | nil => exact hl
  | cons c t ih =>
    cases longer with
    | nil => exact List.nil_prefix
    | cons d longer =>
      obtain ⟨rfl, ht⟩ := List.cons_prefix_cons.mp hl
      rcases hp : p s d with ⟨_ | _, u⟩
      · simp [answers, hp] at ha
      · have hi : false ∉ (answers p u longer).1 := by simpa [answers, hp] using ha
        simpa [cutWhile, hp] using ih ht hi

/-- What a cut asks about: the characters in front and the one that is refused, in this order. -/
theorem cutWhile_noted (p : σ → Char → Bool × σ) (s : σ) (seen t : Text) :
    cutWhile (noted p) (s, seen) t =
      ((cutWhile p s t).1, ((cutWhile p s t).2,
        seen ++ (cutWhile p s t).1.1 ++ (cutWhile p s t).1.2.take 1)) := by
  induction t generalizing s seen with
  | nil => simp [cutWhile]
  | cons c t ih => rcases hp : p s c with ⟨_ | _, u⟩ <;> simp [cutWhile, noted, hp, ih]

end Asking

namespace Zipper
variable {σ : Type} {z : Zipper}

def ofText (t : Text) : Zipper := ⟨[], t⟩

def text (z : Zipper) : Text := z.passed ++ z.ahead

def advance (z : Zipper) : Zipper := ⟨z.passed ++ z.ahead.take 1, z.ahead.drop 1⟩

def eatWhile (p : σ → Char → Bool × σ) (s : σ) (z : Zipper) : Zipper × σ :=
  (⟨z.passed ++ (cutWhile p s z.ahead).1.1, (cutWhile p s z.ahead).1.2⟩, (cutWhile p s z.ahead).2)

def move (z : Zipper) : Cursor.Move → Zipper
  | .advance => z.advance
  | .eatWhile p s => (z.eatWhile p s).1

def moves (z : Zipper) (ms : List Cursor.Move) : Zipper := ms.foldl move z

/-- The cursor that stands behind the bytes of what is passed. -/
def cursor (z : Zipper) : Cursor := { Cursor.ofText z.text with position := z.passed.size }

theorem text_move (z : Zipper) (m : Cursor.Move) : (z.move m).text = z.text := by
  cases m with
  | advance => rw [move, advance, text, List.append_assoc, List.take_append_drop, text]
  | eatWhile p s => simp [move, eatWhile, text, cutWhile_append]

theorem text_moves (z : Zipper) (ms : List Cursor.Move) : (z.moves ms).text = z.text := by
  induction ms generalizing z with
  | nil => rfl
  | cons m ms ih => exact (ih (z.move m)).trans (text_move z m)

end Zipper

namespace Cursor
variable {σ : Type} {z : Zipper} {c : Cursor}

def move (c : Cursor) : Move → Cursor
  | .advance => c.advance
  | .eatWhile p s => (c.eatWhile p s).1

def moves (c : Cursor) (ms : List Move) : Cursor := ms.foldl move c

/-- The current character, with a look at a single byte where that is all of it. -/
def currentByByte (c : Cursor) : Option Char :=
  match c.bytes[c.position]? with
  | none => none
  | some b => if b < 128 then some (Char.ofNat b.toNat) else c.remaining.head?

theorem bytes_cursor (z : Zipper) : z.cursor.bytes = z.text.utf8Encode :=
  String.toByteArray_ofList

theorem current_cursor (z : Zipper) : z.cursor.current = z.ahead.head? := by
  rw [current, bytes_cursor]
  exact Text.utf8DecodeChar?_append z.passed z.ahead

theorem remaining_cursor (z : Zipper) : z.cursor.remaining = z.ahead := by
  have h := Text.textBetween_append z.passed z.ahead []
  rw [List.append_nil] at h
  rw [remaining, bytes_cursor, Text.size_utf8Encode]
  exact h

/-- A step over the next character, whoever takes it. -/
theorem cursor_step (passed : Text) (x : Char) (ahead : Text) :
    { (Zipper.mk passed (x :: ahead)).cursor with position := passed.size + x.utf8Size } =
      (Zipper.mk (passed ++ [x]) ahead).cursor := by
  simp [Zipper.cursor, Zipper.text, ofText]

theorem advance_cursor (z : Zipper) : z.cursor.advance = z.advance.cursor := by
  obtain ⟨passed, ahead⟩ := z
  rw [advance, current_cursor]
  cases ahead with
  | nil => simp [Zipper.advance]
  | cons x ahead => exact cursor_step passed x ahead

theorem atEnd_iff_cursor (z : Zipper) : z.cursor.atEnd = true ↔ z.cursor.current = none := by
  obtain ⟨passed, ahead⟩ := z
  rw [atEnd, current_cursor, bytes_cursor, Text.size_utf8Encode, Zipper.text, Text.size_append,
    decide_eq_true_iff]
  change passed.size + Text.size ahead ≤ passed.size ↔ ahead.head? = none
  cases ahead with
  | nil => simp
  | cons x ahead =>
    have hx := x.utf8Size_pos
    simp only [Text.size_cons, List.head?_cons, reduceCtorEq, iff_false]
    omega

theorem peek_cursor (z : Zipper) : z.cursor.peek = z.ahead[1]? := by
  rw [peek, current_cursor, advance_cursor, current_cursor]
  obtain ⟨passed, ahead⟩ := z
  rcases ahead with _ | ⟨x, _ | ⟨y, ahead⟩⟩ <;> rfl

theorem eatWhile_of_none {p : σ → Char → Bool × σ} {s : σ} (h : c.current = none) :
    c.eatWhile p s = (c, s) := by
  rw [eatWhile]
  split
  · rfl
  · rename_i hx
    cases h.symm.trans hx

theorem eatWhile_of_refused {p : σ → Char → Bool × σ} {s t : σ} {x : Char}
    (h : c.current = some x) (hp : p s x = (false, t)) : c.eatWhile p s = (c, t) := by
  rw [eatWhile]
  split
  · rename_i hx
    cases h.symm.trans hx
  · rename_i hx
    cases h.symm.trans hx
    simp [hp]

theorem eatWhile_of_accepted {p : σ → Char → Bool × σ} {s t : σ} {x : Char}
    (h : c.current = some x) (hp : p s x = (true, t)) :
    c.eatWhile p s = eatWhile p t { c with position := c.position + x.utf8Size } := by
  rw [eatWhile]
  split
  · rename_i hx
    cases h.symm.trans hx
  · rename_i hx
    cases h.symm.trans hx
    simp [hp]

theorem eatWhile_cursor (p : σ → Char → Bool × σ) (s : σ) (z : Zipper) :
    z.cursor.eatWhile p s = ((z.eatWhile p s).1.cursor, (z.eatWhile p s).2) := by
  obtain ⟨passed, ahead⟩ := z
  induction ahead generalizing passed s with
  | nil =>
    rw [eatWhile_of_none (current_cursor _)]
    simp [Zipper.eatWhile, cutWhile]
  | cons x ahead ih =>
    have hx := current_cursor ⟨passed, x :: ahead⟩
    rcases hp : p s x with ⟨_ | _, t⟩
    · rw [eatWhile_of_refused hx hp]
      simp [Zipper.eatWhile, cutWhile, hp]
    · have hi := ih t (passed ++ [x])
      rw [eatWhile_of_accepted hx hp]
      change eatWhile p t { (Zipper.mk passed (x :: ahead)).cursor with
        position := passed.size + x.utf8Size } = _
      rw [cursor_step, hi]
      simp [Zipper.eatWhile, cutWhile, hp]

theorem pair_cursor (z : Zipper) :
    z.cursor.pair = if 2 ≤ z.ahead.length then some (z.ahead.take 2) else none := by
  rw [pair, current_cursor, peek_cursor]
  obtain ⟨passed, ahead⟩ := z
  rcases ahead with _ | ⟨x, _ | ⟨y, ahead⟩⟩
  · rfl
  · rfl
  · simp

theorem currentByByte_of_none (h : c.bytes[c.position]? = none) : c.currentByByte = none := by
  rw [currentByByte, h]

theorem currentByByte_of_some {b : UInt8} (h : c.bytes[c.position]? = some b) :
    c.currentByByte = if b < 128 then some (Char.ofNat b.toNat) else c.remaining.head? := by
  rw [currentByByte, h]

/-- A byte below 128 is a character by itself, and no other byte begins one that is. -/
theorem currentByByte_cursor (z : Zipper) : z.cursor.currentByByte = z.ahead.head? := by
  obtain ⟨passed, ahead⟩ := z
  cases ahead with
  | nil =>
    have hn : (Zipper.mk passed []).cursor.bytes[passed.size]? = none := by
      rw [bytes_cursor, Text.getElem?_utf8Encode, Zipper.text, List.append_nil,
        ← Text.length_toUtf8, List.getElem?_eq_none (Nat.le_refl _)]
    exact currentByByte_of_none hn
  | cons x ahead =>
    obtain ⟨b, tail, hs, he⟩ := Text.exists_encode x
    have hb : (Zipper.mk passed (x :: ahead)).cursor.bytes[passed.size]? = some b := by
      have h := Text.getElem?_utf8Encode_append passed x ahead x.utf8Size_pos
      rwa [he, Nat.add_zero, List.getElem?_cons_zero] at h
    rw [currentByByte_of_some hb, remaining_cursor]
    split
    · next hlt => rw [hs.toNat_of_lt hlt, Char.ofNat_toNat, List.head?_cons]
    · rfl

theorem move_cursor (z : Zipper) (m : Move) : z.cursor.move m = (z.move m).cursor := by
  cases m with
  | advance => exact advance_cursor z
  | eatWhile p s => exact congrArg Prod.fst (eatWhile_cursor p s z)

theorem moves_cursor (z : Zipper) (ms : List Move) :
    z.cursor.moves ms = (z.moves ms).cursor := by
  induction ms generalizing z with
  | nil => rfl
  | cons m ms ih =>
    rw [moves, List.foldl_cons, move_cursor]
    exact ih (z.move m)

theorem moves_ofText (source : Text) (ms : List Move) :
    (ofText source).moves ms = ((Zipper.ofText source).moves ms).cursor :=
  moves_cursor (.ofText source) ms

/-- After any moves the place of the cursor is one between characters, with what is passed and what
is ahead making up the text, and what the cursor shows are the first characters ahead. A step passes
the first of them, if there is one. A predicate passes all that it accepts up to the first refusal,
and it is asked once about each of these and about the one refused, in their order. -/
theorem moves_simulate (source : Text) (ms : List Move) :
    let z := (Zipper.ofText source).moves ms
    let c := (ofText source).moves ms
    c = z.cursor ∧ c.source = source ∧ source = z.passed ++ c.remaining ∧
    c.position = z.passed.size ∧ c.position ≤ source.size ∧ source.IsBoundary c.position ∧
    (Span.mk c.position source.size).slice source = some c.remaining ∧
    c.current = c.remaining.head? ∧ c.currentByByte = c.remaining.head? ∧
    c.peek = c.remaining[1]? ∧
    c.pair = (if 2 ≤ c.remaining.length then some (c.remaining.take 2) else none) ∧
    (c.atEnd = true ↔ c.current = none) ∧
    c.advance = Zipper.cursor ⟨z.passed ++ c.remaining.take 1, c.remaining.drop 1⟩ ∧
    ∀ (σ : Type) (p : σ → Char → Bool × σ) (s : σ), ∃ front back t,
      c.remaining = front ++ back ∧
      c.eatWhile p s = (Zipper.cursor ⟨z.passed ++ front, back⟩, t) ∧
      answers p s (front ++ back.take 1) =
        (List.replicate front.length true ++ (back.take 1).map (fun _ => false), t) ∧
      (∀ longer, longer <+: c.remaining → false ∉ (answers p s longer).1 → longer <+: front) ∧
      c.eatWhile (noted p) (s, []) =
        (Zipper.cursor ⟨z.passed ++ front, back⟩, (t, front ++ back.take 1)) := by
  intro z c
  have hc : c = z.cursor := moves_ofText source ms
  have hz : z.text = source := Zipper.text_moves (.ofText source) ms
  have hr : c.remaining = z.ahead := by rw [hc, remaining_cursor]
  have hp : c.position = z.passed.size := by rw [hc]; rfl
  have ht : source = z.passed ++ z.ahead := hz.symm
  rw [hr]
  refine ⟨hc, ?_, ht, hp, ?_, ?_, ?_, ?_, ?_, ?_, ?_, ?_, ?_, ?_⟩
  · rw [hc]
    exact hz
  · rw [hp, ht, Text.size_append]
    exact Nat.le_add_right _ _
  · exact ⟨z.passed, z.ahead, ht, hp.symm⟩
  · rw [Span.slice_eq_some_iff]
    refine ⟨z.passed, [], ?_, hp.symm, ?_⟩
    · rw [List.append_nil, ht]
    · rw [← ht]
  · rw [hc, current_cursor]
  · rw [hc, currentByByte_cursor]
  · rw [hc, peek_cursor]
  · rw [hc, pair_cursor]
  · rw [hc, atEnd_iff_cursor]
  · rw [hc, advance_cursor]
    rfl
  · intro σ p s
    refine ⟨_, _, _, (cutWhile_append p s z.ahead).symm, ?_, answers_cutWhile p s z.ahead, ?_, ?_⟩
    · rw [hc, eatWhile_cursor]
      rfl
    · intro longer hl ha
      exact isPrefix_cutWhile hl ha
    · rw [hc, eatWhile_cursor, Zipper.eatWhile, cutWhile_noted]
      rfl

end Cursor
end LexCalc
