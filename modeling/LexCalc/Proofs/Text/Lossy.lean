import LexCalc.Proofs.Text.Utf8

/-! Bytes shown as text: characters as they are, and one U+FFFD for each gap between them. A gap is
as long as it can still be the beginning of a character, and never longer. -/
namespace LexCalc.Text
variable {b x lo hi : UInt8} {bs bs' l part part' rest rest' tail xs ys : List UInt8} {c d : Char}
  {k m n : Nat} {s t : Text}

/-- The bytes are the first ones of some character, or all of them. -/
def Begins (bs : List UInt8) : Prop := ∃ c, bs <+: String.utf8EncodeChar c

/-- Bytes in front of others that are no character and do not begin with one. -/
structure Gap (part rest : List UInt8) : Prop where
  ne_nil : part ≠ []
  no_character : ∀ c, ¬ String.utf8EncodeChar c <+: part ++ rest
  begins : part.length = 1 ∨ Begins part
  longest : ∀ l, l <+: part ++ rest → Begins l → l.length ≤ part.length

/-- The text that bytes are shown as. -/
inductive Lossy : List UInt8 → Text → Prop
  | nil : Lossy [] []
  | character {c : Char} {bs : List UInt8} {t : Text} (h : Lossy bs t) :
      Lossy (String.utf8EncodeChar c ++ bs) (c :: t)
  | gap {part bs : List UInt8} {t : Text} (hp : Gap part bs) (h : Lossy bs t) :
      Lossy (part ++ bs) ('\uFFFD' :: t)

/-! ### Continuation bytes -/

theorem takeContinuation_isPrefix (n : Nat) (lo hi : UInt8) (bs : List UInt8) :
    takeContinuation n lo hi bs <+: bs := by
  fun_induction takeContinuation n lo hi bs with
  | case1 n lo hi b bs h ih => exact List.cons_prefix_cons.mpr ⟨rfl, ih⟩
  | case2 => exact List.nil_prefix
  | case3 => exact List.nil_prefix

/-- Whether a byte is taken depends on the bytes up to it only. -/
theorem isPrefix_takeContinuation (hx : l <+: takeContinuation n lo hi xs) (hy : l <+: ys) :
    l <+: takeContinuation n lo hi ys := by
  fun_induction takeContinuation n lo hi xs generalizing l ys with
  | case1 n lo hi b bs h ih =>
    cases l with
    | nil => exact List.nil_prefix
    | cons a l =>
      obtain ⟨rfl, hl⟩ := List.cons_prefix_cons.mp hx
      obtain ⟨ys, rfl⟩ := hy
      rw [List.cons_append, takeContinuation_cons h, List.cons_prefix_cons]
      exact ⟨rfl, ih hl (List.prefix_append ..)⟩
  | case2 => rw [List.prefix_nil.mp hx]; exact List.nil_prefix
  | case3 => rw [List.prefix_nil.mp hx]; exact List.nil_prefix

theorem takeContinuation_nil (n : Nat) (lo hi : UInt8) : takeContinuation n lo hi [] = [] := by
  cases n <;> rfl

/-- Continuation bytes can be completed to any number of them. -/
theorem exists_completion (n : Nat) (bs : List UInt8) :
    ∃ more, let whole := takeContinuation n 0x80 0xbf bs ++ more
      whole.length = n ∧ takeContinuation n 0x80 0xbf whole = whole := by
  induction n generalizing bs with
  | zero => exact ⟨[], rfl, rfl⟩
  | succ n ih =>
    by_cases hb : ∃ b rest, bs = b :: rest ∧ (0x80 : UInt8) ≤ b ∧ b ≤ 0xbf
    · obtain ⟨b, rest, rfl, hb⟩ := hb
      obtain ⟨more, hl, hw⟩ := ih rest
      refine ⟨more, ?_, ?_⟩
      · rw [takeContinuation_cons hb, List.cons_append, List.length_cons, hl]
      · rw [takeContinuation_cons hb, List.cons_append, takeContinuation_cons hb, hw]
    · have hn : takeContinuation (n + 1) 0x80 0xbf bs = [] := by
        cases bs with
        | nil => rfl
        | cons b rest => rw [takeContinuation, if_neg fun h => hb ⟨b, rest, rfl, h⟩]
      obtain ⟨more, hl, hw⟩ := ih []
      rw [takeContinuation_nil, List.nil_append] at hl hw
      refine ⟨0x80 :: more, ?_, ?_⟩
      · rw [hn, List.nil_append, List.length_cons, hl]
      · rw [hn, List.nil_append, takeContinuation_cons (by decide), hw]

/-- So can those of any character, once the first of them is there. -/
theorem exists_completion_of_ne_nil (h : takeContinuation n lo hi bs ≠ []) :
    ∃ more, let whole := takeContinuation n lo hi bs ++ more
      whole.length = n ∧ takeContinuation n lo hi whole = whole := by
  cases n with
  | zero => exact absurd rfl h
  | succ n =>
    cases bs with
    | nil => exact absurd rfl h
    | cons b bs =>
      rw [takeContinuation] at h ⊢
      split_ifs at h ⊢ with hb
      · obtain ⟨more, hl, hw⟩ := exists_completion n bs
        refine ⟨more, ?_, ?_⟩
        · rw [List.cons_append, List.length_cons, hl]
        · rw [List.cons_append, takeContinuation_cons hb, hw]
      · exact absurd rfl h

/-! ### Gaps -/

theorem decodeFront_of_lt (hb : b < 0x80) (bs : List UInt8) :
    decodeFront b bs = (some (Char.ofNat b.toNat), 0) := if_pos hb

theorem decodeFront_of_bounds (hc : continuation? b = some (m, lo, hi)) (bs : List UInt8) :
    (decodeFront b bs).2 = (takeContinuation m lo hi bs).length ∧
      ((decodeFront b bs).1.isSome ↔ (takeContinuation m lo hi bs).length = m) := by
  have hb : ¬ b < 0x80 := by
    have := continuation?_eq_some_iff.mp hc
    rw [UInt8.lt_iff_toNat_lt]
    simp only [UInt8.reduceToNat]
    omega
  rw [decodeFront, if_neg hb, hc]
  refine ⟨rfl, ?_⟩
  dsimp only
  split_ifs with h <;> simp [h]

theorem decodeFront_of_unbounded (hb : ¬ b < 0x80) (hc : continuation? b = none)
    (bs : List UInt8) : decodeFront b bs = (none, 0) := by
  rw [decodeFront, if_neg hb, hc]

/-- The bytes after the first one of a character are within the bounds that it sets. -/
theorem Sequence.takeContinuation_eq (h : Sequence b tail k)
    (hc : continuation? b = some (m, lo, hi)) :
    takeContinuation m lo hi tail = tail ∧ tail.length = m := by
  have hd := h.decode []
  rw [List.append_nil] at hd
  obtain ⟨hn, hs⟩ := decodeFront_of_bounds hc tail
  rw [hd] at hn hs
  have hm := hs.mp rfl
  exact ⟨(takeContinuation_isPrefix m lo hi tail).eq_of_length hn.symm, hn.trans hm⟩

theorem utf8EncodeChar_append_inj
    (h : String.utf8EncodeChar c ++ xs = String.utf8EncodeChar d ++ ys) : c = d ∧ xs = ys := by
  obtain ⟨b, tail, hs, he⟩ := exists_encode c
  obtain ⟨b', tail', hs', he'⟩ := exists_encode d
  rw [he, he', List.cons_append, List.cons_append] at h
  obtain ⟨rfl, ht⟩ := List.cons.inj h
  have hd := hs.decode xs
  rw [ht, hs'.decode ys] at hd
  simp only [Prod.mk.injEq, Option.some.injEq, Char.ofNat_toNat] at hd
  obtain ⟨hdc, hl⟩ := hd
  exact ⟨hdc.symm, (List.append_inj ht hl.symm).2⟩

/-- No character stands where none is decoded. -/
theorem not_isPrefix_of_decodeFront (h : (decodeFront b bs).1 = none) (c : Char) :
    ¬ String.utf8EncodeChar c <+: b :: bs := by
  rintro ⟨rest, hr⟩
  obtain ⟨b', tail, hs, he⟩ := exists_encode c
  rw [he, List.cons_append] at hr
  obtain ⟨rfl, rfl⟩ := List.cons.inj hr
  rw [hs.decode rest] at h
  cases h

/-- Where no character is decoded, what is left out begins one or is a single byte. -/
theorem begins_of_decodeFront (h : (decodeFront b bs).1 = none) :
    (decodeFront b bs).2 = 0 ∨ Begins (b :: bs.take (decodeFront b bs).2) := by
  by_cases hb : b < 0x80
  · rw [decodeFront_of_lt hb] at h
    cases h
  cases hc : continuation? b with
  | none => exact .inl (by rw [decodeFront_of_unbounded hb hc])
  | some bounds =>
    obtain ⟨m, lo, hi⟩ := bounds
    rw [(decodeFront_of_bounds hc bs).1]
    by_cases hn : takeContinuation m lo hi bs = []
    · exact .inl (by rw [hn]; rfl)
    refine .inr ?_
    -- With other bytes behind them, those that are taken would be a character.
    obtain ⟨more, hl, hw⟩ := exists_completion_of_ne_nil hn
    have hlen : (takeContinuation m lo hi (takeContinuation m lo hi bs ++ more)).length = m := by
      rw [hw, hl]
    obtain ⟨tail, rest, k, he, hs⟩ := exists_sequence_of_continuation hc hlen
    have hr : rest = [] := by
      have ht := (hs.takeContinuation_eq hc).2
      rw [he, List.length_append, ht] at hl
      exact List.length_eq_zero_iff.mp (by omega)
    refine ⟨Char.ofNat k, ?_⟩
    rw [hs.encode, ← List.prefix_iff_eq_take.mp (takeContinuation_isPrefix m lo hi bs),
      List.cons_prefix_cons]
    rw [hr, List.append_nil] at he
    exact ⟨rfl, more, he⟩

/-- What could begin a character is left out whole. -/
theorem length_le_of_begins (h : (decodeFront b bs).1 = none) (hl : l <+: b :: bs)
    (hb : Begins l) : l.length ≤ (decodeFront b bs).2 + 1 := by
  obtain ⟨c, hc⟩ := hb
  obtain ⟨b', tail, hs, he⟩ := exists_encode c
  cases l with
  | nil => exact Nat.zero_le _
  | cons a l =>
    rw [he] at hc
    obtain ⟨rfl, hbs⟩ := List.cons_prefix_cons.mp hl
    obtain ⟨rfl, htail⟩ := List.cons_prefix_cons.mp hc
    by_cases hlt : a < 0x80
    · rw [decodeFront_of_lt hlt] at h
      cases h
    cases hcont : continuation? a with
    | none =>
      have hd := hs.decode []
      rw [decodeFront_of_unbounded hlt hcont] at hd
      cases hd
    | some bounds =>
      obtain ⟨m, lo, hi⟩ := bounds
      rw [← (hs.takeContinuation_eq hcont).1] at htail
      rw [(decodeFront_of_bounds hcont bs).1]
      exact Nat.succ_le_succ (isPrefix_takeContinuation htail hbs).length_le

theorem gap_of_decodeFront (h : decodeFront b bs = (none, n)) :
    Gap (b :: bs.take n) (bs.drop n) := by
  have hn : (decodeFront b bs).1 = none := by rw [h]
  have he : b :: bs.take n ++ bs.drop n = b :: bs := by
    rw [List.cons_append, List.take_append_drop]
  have hb := begins_of_decodeFront hn
  have hl := fun l => length_le_of_begins (l := l) hn
  rw [h] at hb hl
  refine ⟨List.cons_ne_nil _ _, ?_, ?_, ?_⟩
  · rw [he]
    exact not_isPrefix_of_decodeFront hn
  · rcases hb with rfl | hb
    · exact .inl rfl
    · exact .inr hb
  · rw [he]
    intro l hp hbl
    have hlen := hl l hp hbl
    have hle := hp.length_le
    simp only [List.length_cons, List.length_take] at hle ⊢
    omega

/-- The text that bytes are read as, with gaps, is the one that they are shown as. -/
theorem lossy_ofUtf8Lossy (bs : List UInt8) : Lossy bs (ofUtf8Lossy bs) := by
  rw [ofUtf8Lossy]
  fun_induction decodePieces bs with
  | case1 => exact .nil
  | case2 b bs piece n hd ih =>
    cases piece with
    | none =>
      have hl := Lossy.gap (gap_of_decodeFront hd) ih
      rwa [List.cons_append, List.take_append_drop] at hl
    | some c =>
      obtain ⟨tail, rest, k, rfl, rfl, hs, rfl⟩ := exists_of_decodeFront hd
      rw [List.drop_left] at ih
      have hl := Lossy.character (c := Char.ofNat k) ih
      rw [hs.encode, List.cons_append] at hl
      rwa [List.drop_left]

/-- UTF-8 is shown as the text that it is the form of. -/
theorem ofUtf8Lossy_toUtf8 (t : Text) : ofUtf8Lossy (toUtf8 t) = t := by
  rw [ofUtf8Lossy, decodePieces_toUtf8, List.map_map]
  exact List.map_id t

theorem Gap.length_le (h : Gap part rest) (h' : Gap part' rest')
    (he : part ++ rest = part' ++ rest') : part'.length ≤ part.length := by
  rcases h'.begins with h1 | hb
  · rw [h1]
    exact List.length_pos_iff.mpr h.ne_nil
  · exact h.longest part' (he ▸ List.prefix_append ..) hb

theorem utf8EncodeChar_ne_nil (c : Char) : String.utf8EncodeChar c ≠ [] := by
  obtain ⟨b, tail, -, he⟩ := exists_encode c
  rw [he]
  exact List.cons_ne_nil b tail

/-- There is one way to show bytes. -/
theorem Lossy.unique (hs : Lossy bs s) (ht : Lossy bs t) : s = t := by
  induction hs generalizing t with
  | nil =>
    generalize he : ([] : List UInt8) = w at ht
    cases ht with
    | nil => rfl
    | @character d => exact absurd (List.append_eq_nil_iff.mp he.symm).1 (utf8EncodeChar_ne_nil d)
    | gap hp => exact absurd (List.append_eq_nil_iff.mp he.symm).1 hp.ne_nil
  | @character c bs s hs ih =>
    generalize he : String.utf8EncodeChar c ++ bs = w at ht
    cases ht with
    | nil => exact absurd (List.append_eq_nil_iff.mp he).1 (utf8EncodeChar_ne_nil c)
    | character ht =>
      obtain ⟨rfl, rfl⟩ := utf8EncodeChar_append_inj he
      rw [ih ht]
    | gap hp => exact absurd ⟨bs, he⟩ (hp.no_character c)
  | @gap part bs s hp hs ih =>
    generalize he : part ++ bs = w at ht
    cases ht with
    | nil => exact absurd (List.append_eq_nil_iff.mp he).1 hp.ne_nil
    | @character d bs' => exact absurd ⟨bs', he.symm⟩ (hp.no_character d)
    | gap hp' ht =>
      have hl := Nat.le_antisymm (hp'.length_le hp he.symm) (hp.length_le hp' he)
      obtain ⟨rfl, rfl⟩ := List.append_inj he hl
      rw [ih ht]

theorem Lossy.eq_of_toUtf8 (h : Lossy (toUtf8 t) s) : s = t := by
  have ht := lossy_ofUtf8Lossy (toUtf8 t)
  rw [ofUtf8Lossy_toUtf8] at ht
  exact h.unique ht

end LexCalc.Text
