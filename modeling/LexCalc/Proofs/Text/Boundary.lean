import LexCalc.Proofs.Text.Zipper

/-! Texts are cut between characters, and nowhere else. What a span cuts out of a text and what a
cursor has passed since an offset are the same. -/
namespace LexCalc

namespace Text
variable {t f g rest rest' : Text} {b : UInt8} {tail : List UInt8} {k n : Nat}

/-- An offset behind the first byte of a character and before its end. -/
def IsInside (t : Text) (n : Nat) : Prop :=
  ∃ (front : Text) (c : Char) (back : Text),
    t = front ++ c :: back ∧ front.size < n ∧ n < front.size + c.utf8Size

theorem IsBoundary.le_size (h : t.IsBoundary n) : n ≤ t.size := by
  obtain ⟨front, back, rfl, rfl⟩ := h
  rw [size_append]
  exact Nat.le_add_right _ _

/-- Of two fronts of a text the one with fewer bytes is a front of the other. -/
theorem exists_append_of_size_le (h : f ++ rest = g ++ rest') (hl : f.size ≤ g.size) :
    ∃ mid, g = f ++ mid := by
  rcases List.append_eq_append_iff.mp h with ⟨mid, hm, -⟩ | ⟨mid, rfl, -⟩
  · exact ⟨mid, hm⟩
  · rw [size_append] at hl
    have hm : mid = [] := by
      by_contra hne
      have := size_pos hne
      omega
    exact ⟨[], by rw [hm, List.append_nil, List.append_nil]⟩

/-- An offset within the text falls between two characters or inside one. -/
theorem isBoundary_or_isInside (hn : n ≤ t.size) : t.IsBoundary n ∨ t.IsInside n := by
  induction t generalizing n with
  | nil => exact .inl ⟨[], [], rfl, (Nat.le_zero.mp hn).symm⟩
  | cons c t ih =>
    rcases Nat.eq_zero_or_pos n with rfl | h0
    · exact .inl ⟨[], c :: t, rfl, rfl⟩
    rcases Nat.lt_or_ge n c.utf8Size with hc | hc
    · exact .inr ⟨[], c, t, rfl, h0, by rwa [size_nil, Nat.zero_add]⟩
    rw [size_cons] at hn
    rcases ih (n := n - c.utf8Size) (by omega) with ⟨front, back, rfl, hf⟩ |
      ⟨front, d, back, rfl, hl, hu⟩
    · exact .inl ⟨c :: front, back, rfl, by rw [size_cons]; omega⟩
    · exact .inr ⟨c :: front, d, back, rfl, by rw [size_cons]; omega, by rw [size_cons]; omega⟩

theorem IsBoundary.not_isInside (h : t.IsBoundary n) : ¬ t.IsInside n := by
  obtain ⟨f, rest, rfl, rfl⟩ := h
  rintro ⟨front, c, back, he, hl, hu⟩
  -- The front that ends at `n` would have to end inside `c`.
  obtain ⟨mid, rfl⟩ := exists_append_of_size_le he.symm (Nat.le_of_lt hl)
  rw [List.append_assoc, List.append_cancel_left_eq] at he
  rw [size_append] at hl hu
  cases mid with
  | nil => simp at hl
  | cons d mid =>
    obtain ⟨rfl, -⟩ := List.cons.inj he
    rw [size_cons] at hu
    omega

/-! ### The test on a byte -/

theorem continues_iff (b : UInt8) : b &&& 0xc0 = 0x80 ↔ 0x80 ≤ b.toNat ∧ b.toNat < 0xc0 := by
  have h : ∀ n < 256, UInt8.ofNat n &&& 0xc0 = 0x80 ↔ 0x80 ≤ n ∧ n < 0xc0 := by decide +kernel
  have hb := h b.toNat b.toNat_lt
  rwa [UInt8.ofNat_toNat] at hb

/-- All bytes of a character but the first are continuation bytes. -/
theorem Sequence.continues (h : Sequence b tail n) :
    b &&& 0xc0 ≠ 0x80 ∧ ∀ x ∈ tail, x &&& 0xc0 = 0x80 := by
  simp only [Ne, continues_iff]
  cases h with
  | one | two | three | four =>
    simp only [List.forall_mem_cons, List.not_mem_nil, false_imp_iff, implies_true, and_true,
      UInt8.toNat_ofNat']
    omega

theorem isBoundary_of_getElem? (h : t.utf8Encode[n]? = some b) (hn : n ≠ 0) :
    Cursor.isBoundary t.utf8Encode n = true ↔ b &&& 0xc0 ≠ 0x80 := by
  simp [Cursor.isBoundary, h, hn]

theorem isBoundary_utf8Encode (h : t.IsBoundary n) : Cursor.isBoundary t.utf8Encode n = true := by
  rcases Nat.eq_zero_or_pos n with rfl | h0
  · rfl
  obtain ⟨front, back, rfl, rfl⟩ := h
  cases back with
  | nil => simp [Cursor.isBoundary, size_utf8Encode]
  | cons c back =>
    obtain ⟨b, tail, hs, he⟩ := exists_encode c
    have hb := getElem?_utf8Encode_append front c back c.utf8Size_pos
    rw [Nat.add_zero, he] at hb
    exact (isBoundary_of_getElem? hb (Nat.ne_of_gt h0)).mpr hs.continues.1

/-- Inside a character every byte is a continuation byte. -/
theorem not_isBoundary_of_isInside (h : t.IsInside n) :
    ¬ Cursor.isBoundary t.utf8Encode n = true := by
  obtain ⟨front, c, back, rfl, hl, hu⟩ := h
  obtain ⟨k, rfl⟩ := Nat.exists_eq_add_of_lt hl
  obtain ⟨b, tail, hs, he⟩ := exists_encode c
  have hk : k < tail.length := by
    have hc := String.length_utf8EncodeChar c
    rw [he, List.length_cons] at hc
    omega
  have hx := getElem?_utf8Encode_append (k := k + 1) front c back (by omega)
  rw [he, List.getElem?_cons_succ, List.getElem?_eq_getElem hk] at hx
  rw [Nat.add_assoc, isBoundary_of_getElem? hx (by omega), not_not]
  exact hs.continues.2 _ (List.getElem_mem hk)

theorem not_isBoundary_of_size_lt (h : t.size < n) : ¬ Cursor.isBoundary t.utf8Encode n = true := by
  have hn : t.utf8Encode[n]? = none := by
    rw [getElem?_utf8Encode, List.getElem?_eq_none (by rw [length_toUtf8]; omega)]
  rw [Cursor.isBoundary, hn, size_utf8Encode]
  simp only [Bool.or_eq_true, beq_iff_eq]
  omega

/-- The test on the byte at an offset finds the offsets between characters. -/
theorem isBoundary_utf8Encode_iff : Cursor.isBoundary t.utf8Encode n = true ↔ t.IsBoundary n := by
  refine ⟨fun h => ?_, isBoundary_utf8Encode⟩
  rcases Nat.lt_or_ge t.size n with hn | hn
  · exact absurd h (not_isBoundary_of_size_lt hn)
  · exact (isBoundary_or_isInside hn).resolve_right fun hi => not_isBoundary_of_isInside hi h

end Text

namespace Span
variable {s : Span} {source t u : Text}

/-- `t` is what stands between the offsets. -/
def Cuts (s : Span) (source t : Text) : Prop :=
  ∃ front back, source = front ++ t ++ back ∧ front.size = s.start ∧ (front ++ t).size = s.stop

theorem Cuts.unique (ht : s.Cuts source t) (hu : s.Cuts source u) : t = u := by
  have hs := slice_eq_some_iff.mpr ht
  rw [slice_eq_some_iff.mpr hu] at hs
  exact (Option.some.inj hs).symm

theorem isSome_slice_iff : (s.slice source).isSome = true ↔
    s.start ≤ s.stop ∧ source.IsBoundary s.start ∧ source.IsBoundary s.stop := by
  constructor
  · intro h
    obtain ⟨t, ht⟩ := Option.isSome_iff_exists.mp h
    refine ⟨?_, isBoundary_of_slice ht⟩
    obtain ⟨front, back, -, hstart, hstop⟩ := slice_eq_some_iff.mp ht
    rw [← hstart, ← hstop, Text.size_append]
    exact Nat.le_add_right _ _
  · rintro ⟨hle, ⟨f, rest, rfl, hf⟩, g, rest', he, hg⟩
    obtain ⟨t, rfl⟩ := Text.exists_append_of_size_le he (by rwa [hf, hg])
    rw [Option.isSome_iff_exists]
    exact ⟨t, slice_eq_some_iff.mpr ⟨f, rest', he, hf, hg⟩⟩

/-- Nothing is cut out for one of three reasons. -/
theorem slice_eq_none_iff : s.slice source = none ↔
    s.stop < s.start ∨ source.size < s.stop ∨ source.IsInside s.start ∨ source.IsInside s.stop := by
  rw [← Option.not_isSome_iff_eq_none, isSome_slice_iff]
  constructor
  · intro h
    by_contra hn
    simp only [not_or, Nat.not_lt] at hn
    obtain ⟨hle, hstop, hs, ht⟩ := hn
    apply h
    exact ⟨hle, (Text.isBoundary_or_isInside (Nat.le_trans hle hstop)).resolve_right hs,
      (Text.isBoundary_or_isInside hstop).resolve_right ht⟩
  · rintro h ⟨hle, hs, ht⟩
    rcases h with h | h | h | h
    · omega
    · have := ht.le_size
      omega
    · exact hs.not_isInside h
    · exact ht.not_isInside h

/-- The bytes of what is cut out stand between the offsets. -/
theorem toUtf8_of_slice (h : s.slice source = some t) :
    Text.toUtf8 t = ((Text.toUtf8 source).take s.stop).drop s.start := by
  obtain ⟨front, back, rfl, hstart, hstop⟩ := slice_eq_some_iff.mp h
  rw [← hstart, ← hstop, ← Text.length_toUtf8, ← Text.length_toUtf8,
    Text.toUtf8_append (front ++ t), List.take_left, Text.toUtf8_append, List.drop_left]

end Span

namespace Cursor

/-- What was passed since an offset is what a span cuts out. -/
theorem sliceFrom_cursor (z : Zipper) (n : Nat) :
    z.cursor.sliceFrom n = (Span.mk n z.cursor.position).slice z.text := by
  have hp : z.text.IsBoundary z.cursor.position := ⟨z.passed, z.ahead, rfl, rfl⟩
  rw [sliceFrom, bytes_cursor]
  split
  · next h =>
    rw [Bool.and_eq_true, decide_eq_true_iff, Text.isBoundary_utf8Encode_iff] at h
    obtain ⟨hle, front, back, he, rfl⟩ := h
    obtain ⟨mid, hm⟩ := Text.exists_append_of_size_le he.symm hle
    have ht : z.text = front ++ mid ++ z.ahead := by rw [← hm]; rfl
    have hs : z.cursor.position = (front ++ mid).size := congrArg Text.size hm
    rw [eq_comm, Span.slice_eq_some_iff, hs, ht, Text.textBetween_append]
    exact ⟨front, z.ahead, rfl, rfl, rfl⟩
  · next h =>
    rw [Bool.and_eq_true, decide_eq_true_iff, Text.isBoundary_utf8Encode_iff] at h
    rw [eq_comm, ← Option.not_isSome_iff_eq_none, Span.isSome_slice_iff]
    exact fun ⟨hle, hn, _⟩ => h ⟨hle, hn⟩

/-- A cursor that was moved about in a text cuts it as a span does. -/
theorem sliceFrom_moves (source : Text) (ms : List Move) (n : Nat) :
    ((ofText source).moves ms).sliceFrom n =
      (Span.mk n ((ofText source).moves ms).position).slice source := by
  rw [moves_ofText, sliceFrom_cursor, Zipper.text_moves]
  rfl

end Cursor

namespace Span

/-- A span cuts out the one text that stands between its offsets. There is none if the offsets are
reversed, if the second is past the end, or if one of them is inside a character, which the byte
there tells. What was passed by a cursor is cut out in the same way, however it got there. -/
theorem cuts_between_characters (source : Text) (s : Span) :
    (∀ t, s.slice source = some t ↔ s.Cuts source t) ∧
    (∀ t u, s.Cuts source t → s.Cuts source u → t = u) ∧
    (s.slice source = none ↔ s.stop < s.start ∨ source.size < s.stop ∨
      source.IsInside s.start ∨ source.IsInside s.stop) ∧
    ((s.slice source).isSome = true ↔ s.start ≤ s.stop ∧
      Cursor.isBoundary (Cursor.ofText source).bytes s.start = true ∧
      Cursor.isBoundary (Cursor.ofText source).bytes s.stop = true) ∧
    (∀ t, s.slice source = some t →
      Text.toUtf8 t = ((Text.toUtf8 source).take s.stop).drop s.start) ∧
    ∀ (ms : List Cursor.Move) (n : Nat),
      let c := (Cursor.ofText source).moves ms
      c.sliceFrom n = (Span.mk n c.position).slice source := by
  have hb : (Cursor.ofText source).bytes = source.utf8Encode :=
    Cursor.bytes_cursor (.ofText source)
  refine ⟨?_, ?_, slice_eq_none_iff, ?_, ?_, ?_⟩
  · intro t
    exact slice_eq_some_iff
  · intro t u ht hu
    exact ht.unique hu
  · rw [hb, Text.isBoundary_utf8Encode_iff, Text.isBoundary_utf8Encode_iff]
    exact isSome_slice_iff
  · intro t ht
    exact toUtf8_of_slice ht
  · intro ms n
    exact Cursor.sliceFrom_moves source ms n

/-- A character of two bytes is cut out by its two bytes, not by the first of them. -/
theorem cuts_between_characters_accent :
    (Span.mk 1 3).slice ['a', 'é', 'b'] = some ['é'] ∧
    (Span.mk 1 2).slice ['a', 'é', 'b'] = none ∧
    Text.toUtf8 ['é'] = ((Text.toUtf8 ['a', 'é', 'b']).take 3).drop 1 := by
  have h : (Span.mk 1 3).slice ['a', 'é', 'b'] = some ['é'] :=
    ((cuts_between_characters ['a', 'é', 'b'] ⟨1, 3⟩).1 ['é']).mpr ⟨['a'], ['b'], rfl, rfl, rfl⟩
  have hi : Text.IsInside ['a', 'é', 'b'] 2 := ⟨['a'], 'é', ['b'], rfl, by decide, by decide⟩
  refine ⟨h, ?_, ?_⟩
  · exact (cuts_between_characters ['a', 'é', 'b'] ⟨1, 2⟩).2.2.1.mpr (.inr (.inr (.inr hi)))
  · exact (cuts_between_characters ['a', 'é', 'b'] ⟨1, 3⟩).2.2.2.2.1 ['é'] h

end Span
end LexCalc
