import LexCalc.Text.Utf8
import Mathlib.Data.List.Basic
import Mathlib.Tactic.SplitIfs

/-! Bytes are read as a text exactly if they are its UTF-8 form. -/
namespace LexCalc

theorem mapM_eq_some_iff {α β : Type} {f : α → Option β} {xs : List α} {ys : List β} :
    xs.mapM f = some ys ↔ xs.map f = ys.map some := by
  induction xs generalizing ys with
  | nil => cases ys <;> simp
  | cons x xs ih =>
    rw [List.mapM_cons]
    cases ys with
    | nil => simp [Option.bind_eq_some_iff]
    | cons y ys => simp [Option.bind_eq_some_iff, ih]

theorem mapM_eq_none_iff {α β : Type} {f : α → Option β} {xs : List α} :
    xs.mapM f = none ↔ ∃ x ∈ xs, f x = none := by
  induction xs with
  | nil => simp
  | cons x xs ih =>
    rw [List.mapM_cons, List.exists_mem_cons_iff, ← ih]
    cases f x with
    | none => simp
    | some y => cases xs.mapM f <;> simp

namespace Text
variable {b x lo hi : UInt8} {bs tail rest : List UInt8} {c : Char} {n : Nat} {t : Text}

/-- The first byte of a character, the bytes after it, and its code point: the digits of the code
point in base 64, in as few bytes as there can be. -/
inductive Sequence : UInt8 → List UInt8 → Nat → Prop where
  | one {p : Nat} (hp : p < 0x80) : Sequence (.ofNat p) [] p
  | two {p q : Nat} (hp : p < 32) (hq : q < 64) (h : 0x80 ≤ 64 * p + q) :
    Sequence (.ofNat (p + 192)) [.ofNat (q + 128)] (64 * p + q)
  | three {p q r : Nat} (hp : p < 16) (hq : q < 64) (hr : r < 64)
    (h : 0x800 ≤ 4096 * p + 64 * q + r) (hv : (4096 * p + 64 * q + r).isValidChar) :
    Sequence (.ofNat (p + 224)) [.ofNat (q + 128), .ofNat (r + 128)] (4096 * p + 64 * q + r)
  | four {p q r s : Nat} (hp : p < 8) (hq : q < 64) (hr : r < 64) (hs : s < 64)
    (h : 0x10000 ≤ 262144 * p + 4096 * q + 64 * r + s)
    (hv : (262144 * p + 4096 * q + 64 * r + s).isValidChar) :
    Sequence (.ofNat (p + 240)) [.ofNat (q + 128), .ofNat (r + 128), .ofNat (s + 128)]
      (262144 * p + 4096 * q + 64 * r + s)

namespace Sequence

theorem isValidChar (h : Sequence b tail n) : n.isValidChar := by
  cases h with
  | one hp => exact .inl (by omega)
  | two hp hq => exact .inl (by omega)
  | three _ _ _ _ hv | four _ _ _ _ _ hv => exact hv

theorem encode (h : Sequence b tail n) : String.utf8EncodeChar (Char.ofNat n) = b :: tail := by
  have hn : (Char.ofNat n).val.toNat = n := by
    rw [Char.ofNat, dif_pos h.isValidChar]
    rfl
  rw [String.utf8EncodeChar, hn]
  cases h with
  | one hp => rw [if_pos (by omega)]
  | @two p q hp hq h =>
    rw [if_neg (by omega), if_pos (by omega), show (64 * p + q) / 64 % 32 = p by omega,
      show (64 * p + q) % 64 = q by omega]
  | @three p q r hp hq hr h hv =>
    rw [if_neg (by omega), if_neg (by omega), if_pos (by omega),
      show (4096 * p + 64 * q + r) / 4096 % 16 = p by omega,
      show (4096 * p + 64 * q + r) / 64 % 64 = q by omega,
      show (4096 * p + 64 * q + r) % 64 = r by omega]
  | @four p q r s hp hq hr hs h hv =>
    rw [if_neg (by omega), if_neg (by omega), if_neg (by omega),
      show (262144 * p + 4096 * q + 64 * r + s) / 262144 % 8 = p by omega,
      show (262144 * p + 4096 * q + 64 * r + s) / 4096 % 64 = q by omega,
      show (262144 * p + 4096 * q + 64 * r + s) / 64 % 64 = r by omega,
      show (262144 * p + 4096 * q + 64 * r + s) % 64 = s by omega]

/-- The byte of a newline is in no other character. -/
theorem eq_of_newline_mem (hs : Sequence b tail n) (h : 10 ∈ b :: tail) : n = 10 := by
  cases hs with
  | one | two | three | four =>
    simp only [List.mem_cons, List.not_mem_nil, or_false, ← UInt8.toNat_inj, UInt8.toNat_ofNat',
      UInt8.reduceToNat] at h
    omega

end Sequence

/-- Every code point has its bytes. -/
theorem exists_sequence (h : n.isValidChar) : ∃ b tail, Sequence b tail n := by
  have hlt : n < 0x110000 := by
    obtain h | h := h <;> omega
  by_cases h1 : n < 0x80
  · exact ⟨_, _, .one h1⟩
  by_cases h2 : n < 0x800
  · obtain ⟨p, q, hq, rfl⟩ : ∃ p q, q < 64 ∧ n = 64 * p + q := ⟨n / 64, n % 64, by omega, by omega⟩
    exact ⟨_, _, .two (by omega) hq (by omega)⟩
  by_cases h3 : n < 0x10000
  · obtain ⟨p, q, r, hq, hr, rfl⟩ : ∃ p q r, q < 64 ∧ r < 64 ∧ n = 4096 * p + 64 * q + r :=
      ⟨n / 4096, n / 64 % 64, n % 64, by omega, by omega, by omega⟩
    exact ⟨_, _, .three (by omega) hq hr (by omega) h⟩
  · obtain ⟨p, q, r, s, hq, hr, hs, rfl⟩ :
        ∃ p q r s, q < 64 ∧ r < 64 ∧ s < 64 ∧ n = 262144 * p + 4096 * q + 64 * r + s :=
      ⟨n / 262144, n / 4096 % 64, n / 64 % 64, n % 64, by omega, by omega, by omega, by omega⟩
    exact ⟨_, _, .four (by omega) hq hr hs (by omega) h⟩

/-- A character is written as the digits of its code point. -/
theorem exists_encode (c : Char) :
    ∃ b tail, Sequence b tail c.toNat ∧ String.utf8EncodeChar c = b :: tail := by
  obtain ⟨b, tail, hs⟩ := exists_sequence (n := c.toNat) c.valid
  have he := hs.encode
  rw [Char.ofNat_toNat] at he
  exact ⟨b, tail, hs, he⟩

@[simp] theorem toUtf8_nil : toUtf8 [] = [] := rfl

theorem toUtf8_cons (c : Char) (t : Text) :
    toUtf8 (c :: t) = String.utf8EncodeChar c ++ toUtf8 t :=
  List.flatMap_cons

theorem toUtf8_append (s t : Text) : toUtf8 (s ++ t) = toUtf8 s ++ toUtf8 t :=
  List.flatMap_append

/-- After some first bytes the next one has bounds of its own, which leave out overlong forms,
surrogates and what is too large. -/
theorem continuation?_eq_some_iff :
    continuation? b = some (n, lo, hi) ↔
      (n = 1 ∧ (0xc2 ≤ b.toNat ∧ b.toNat ≤ 0xdf) ∧ lo = 0x80 ∧ hi = 0xbf) ∨
      (n = 2 ∧ (0xe0 ≤ b.toNat ∧ b.toNat ≤ 0xef) ∧
        lo = (if b.toNat = 0xe0 then 0xa0 else 0x80) ∧ hi = if b.toNat = 0xed then 0x9f else 0xbf) ∨
      (n = 3 ∧ (0xf0 ≤ b.toNat ∧ b.toNat ≤ 0xf4) ∧
        lo = (if b.toNat = 0xf0 then 0x90 else 0x80) ∧
        hi = if b.toNat = 0xf4 then 0x8f else 0xbf) := by
  simp only [continuation?, UInt8.le_iff_toNat_le, ← UInt8.toNat_inj, UInt8.reduceToNat]
  split_ifs <;> (try simp only [Option.some.injEq, Prod.mk.injEq, ← UInt8.toNat_inj,
    UInt8.reduceToNat, false_iff]) <;> omega

theorem takeContinuation_cons (h : lo ≤ x ∧ x ≤ hi) (n : Nat) (bs : List UInt8) :
    takeContinuation (n + 1) lo hi (x :: bs) = x :: takeContinuation n 0x80 0xbf bs := by
  rw [takeContinuation, if_pos h]

/-- Continuation bytes are taken one by one, and only the first has bounds of its own. -/
theorem exists_of_length_takeContinuation
    (h : (takeContinuation (n + 1) lo hi bs).length = n + 1) :
    ∃ x rest, bs = x :: rest ∧ (lo ≤ x ∧ x ≤ hi) ∧
      (takeContinuation n 0x80 0xbf rest).length = n := by
  cases bs with
  | nil => simp [takeContinuation] at h
  | cons x rest =>
    rw [takeContinuation] at h
    split_ifs at h with hx
    exact ⟨x, rest, rfl, hx, Nat.succ.inj h⟩

theorem decodeFront_of_continuation (hc : continuation? b = some (n, lo, hi))
    (ht : takeContinuation n lo hi bs = tail) (hl : tail.length = n) :
    decodeFront b bs = (some (Char.ofNat (codePoint b tail)), n) := by
  have hb : ¬ b < 0x80 := by
    have := continuation?_eq_some_iff.mp hc
    rw [UInt8.lt_iff_toNat_lt]
    simp only [UInt8.reduceToNat]
    omega
  rw [decodeFront, if_neg hb, hc]
  simp only [ht, hl, if_pos]

theorem toNat_ofNat_add {k : Nat} (h : n + k < 256) : (UInt8.ofNat (n + k)).toNat = n + k :=
  UInt8.toNat_ofNat_of_lt' h

/-- A digit stands in a continuation byte. -/
theorem continuation_bounds (h : n < 64) :
    (0x80 : UInt8) ≤ .ofNat (n + 128) ∧ .ofNat (n + 128) ≤ (0xbf : UInt8) := by
  have hx := toNat_ofNat_add (n := n) (k := 128) (by omega)
  simp only [UInt8.le_iff_toNat_le, hx, UInt8.reduceToNat]
  omega

/-- The bytes of a character are decoded, whatever follows them. -/
theorem Sequence.decode (h : Sequence b tail n) (rest : List UInt8) :
    decodeFront b (tail ++ rest) = (some (Char.ofNat n), tail.length) := by
  cases h with
  | one hp =>
    have hb : (UInt8.ofNat n).toNat = n := toNat_ofNat_add (k := 0) (by omega)
    have hlt : UInt8.ofNat n < 0x80 := UInt8.lt_iff_toNat_lt.mpr (by rwa [hb])
    rw [decodeFront, if_pos hlt, hb]
    rfl
  | @two p q hp hq h =>
    have hb := toNat_ofNat_add (n := p) (k := 192) (by omega)
    have hx := toNat_ofNat_add (n := q) (k := 128) (by omega)
    have hc : continuation? (.ofNat (p + 192)) = some (1, 0x80, 0xbf) :=
      continuation?_eq_some_iff.mpr (.inl ⟨rfl, by omega, rfl, rfl⟩)
    have ht : takeContinuation 1 0x80 0xbf ([.ofNat (q + 128)] ++ rest) = [.ofNat (q + 128)] := by
      rw [List.singleton_append, takeContinuation_cons (continuation_bounds hq)]
      rfl
    have hn : codePoint (.ofNat (p + 192)) [.ofNat (q + 128)] = 64 * p + q := by
      simp only [codePoint, List.foldl, List.length, Nat.zero_add, Nat.reduceShiftRight, hb, hx]
      omega
    rw [decodeFront_of_continuation hc ht rfl, hn]
    rfl
  | @three p q r hp hq hr h hv =>
    have hb := toNat_ofNat_add (n := p) (k := 224) (by omega)
    have hx := toNat_ofNat_add (n := q) (k := 128) (by omega)
    have hy := toNat_ofNat_add (n := r) (k := 128) (by omega)
    obtain ⟨lo, hi, hc, hbounds⟩ : ∃ lo hi,
        continuation? (.ofNat (p + 224)) = some (2, lo, hi) ∧
          lo ≤ .ofNat (q + 128) ∧ .ofNat (q + 128) ≤ hi := by
      refine ⟨_, _, continuation?_eq_some_iff.mpr (.inr (.inl ⟨rfl, by omega, rfl, rfl⟩)), ?_⟩
      unfold Nat.isValidChar at hv
      split_ifs <;> simp only [UInt8.le_iff_toNat_le, hx, UInt8.reduceToNat] <;> omega
    have ht : takeContinuation 2 lo hi ([.ofNat (q + 128), .ofNat (r + 128)] ++ rest) =
        [.ofNat (q + 128), .ofNat (r + 128)] := by
      rw [List.cons_append, List.singleton_append, takeContinuation_cons hbounds,
        takeContinuation_cons (continuation_bounds hr)]
      rfl
    have hn : codePoint (.ofNat (p + 224)) [.ofNat (q + 128), .ofNat (r + 128)] =
        4096 * p + 64 * q + r := by
      simp only [codePoint, List.foldl, List.length, Nat.zero_add, Nat.reduceAdd,
        Nat.reduceShiftRight, hb, hx, hy]
      omega
    rw [decodeFront_of_continuation hc ht rfl, hn]
    rfl
  | @four p q r s hp hq hr hs h hv =>
    have hb := toNat_ofNat_add (n := p) (k := 240) (by omega)
    have hx := toNat_ofNat_add (n := q) (k := 128) (by omega)
    have hy := toNat_ofNat_add (n := r) (k := 128) (by omega)
    have hz := toNat_ofNat_add (n := s) (k := 128) (by omega)
    unfold Nat.isValidChar at hv
    obtain ⟨lo, hi, hc, hbounds⟩ : ∃ lo hi,
        continuation? (.ofNat (p + 240)) = some (3, lo, hi) ∧
          lo ≤ .ofNat (q + 128) ∧ .ofNat (q + 128) ≤ hi := by
      refine ⟨_, _, continuation?_eq_some_iff.mpr (.inr (.inr ⟨rfl, by omega, rfl, rfl⟩)), ?_⟩
      split_ifs <;> simp only [UInt8.le_iff_toNat_le, hx, UInt8.reduceToNat] <;> omega
    have ht : takeContinuation 3 lo hi
        ([.ofNat (q + 128), .ofNat (r + 128), .ofNat (s + 128)] ++ rest) =
          [.ofNat (q + 128), .ofNat (r + 128), .ofNat (s + 128)] := by
      rw [List.cons_append, List.cons_append, List.singleton_append, takeContinuation_cons hbounds,
        takeContinuation_cons (continuation_bounds hr),
        takeContinuation_cons (continuation_bounds hs)]
      rfl
    have hn : codePoint (.ofNat (p + 240)) [.ofNat (q + 128), .ofNat (r + 128), .ofNat (s + 128)] =
        262144 * p + 4096 * q + 64 * r + s := by
      simp only [codePoint, List.foldl, List.length, Nat.zero_add, Nat.reduceAdd,
        Nat.reduceShiftRight, hb, hx, hy, hz]
      omega
    rw [decodeFront_of_continuation hc ht rfl, hn]
    rfl

theorem exists_ofNat_add {k : Nat} (h : k ≤ b.toNat) :
    ∃ p, b = .ofNat (p + k) ∧ b.toNat = p + k :=
  ⟨b.toNat - k, by rw [Nat.sub_add_cancel h, UInt8.ofNat_toNat], (Nat.sub_add_cancel h).symm⟩

/-- The bounds of the bytes after the first leave nothing but the forms of characters. -/
theorem exists_sequence_of_continuation (hc : continuation? b = some (n, lo, hi))
    (hl : (takeContinuation n lo hi bs).length = n) :
    ∃ tail rest k, bs = tail ++ rest ∧ Sequence b tail k := by
  rcases continuation?_eq_some_iff.mp hc with ⟨rfl, hb, rfl, rfl⟩ | ⟨rfl, hb, rfl, rfl⟩ |
    ⟨rfl, hb, rfl, rfl⟩
  · obtain ⟨x, rest, rfl, hx, -⟩ := exists_of_length_takeContinuation hl
    obtain ⟨p, rfl, hp⟩ := exists_ofNat_add (b := b) (k := 192) (by omega)
    obtain ⟨q, rfl, hq⟩ := exists_ofNat_add (b := x) (k := 128) hx.1
    have hqu : (UInt8.ofNat (q + 128)).toNat ≤ 0xbf := hx.2
    exact ⟨[_], rest, _, rfl, .two (by omega) (by omega) (by omega)⟩
  · obtain ⟨x, rest, rfl, hx, hl⟩ := exists_of_length_takeContinuation hl
    obtain ⟨y, rest, rfl, hy, -⟩ := exists_of_length_takeContinuation hl
    have hxb : (0x80 ≤ x.toNat ∧ x.toNat ≤ 0xbf) ∧ (b.toNat = 0xe0 → 0xa0 ≤ x.toNat) ∧
        (b.toNat = 0xed → x.toNat ≤ 0x9f) := by
      split_ifs at hx <;> simp only [UInt8.le_iff_toNat_le, UInt8.reduceToNat] at hx <;> omega
    obtain ⟨p, rfl, hp⟩ := exists_ofNat_add (b := b) (k := 224) (by omega)
    obtain ⟨q, rfl, hq⟩ := exists_ofNat_add (b := x) (k := 128) hxb.1.1
    obtain ⟨r, rfl, hr⟩ := exists_ofNat_add (b := y) (k := 128) hy.1
    have hru : (UInt8.ofNat (r + 128)).toNat ≤ 0xbf := hy.2
    have hv : (4096 * p + 64 * q + r).isValidChar := by
      unfold Nat.isValidChar
      omega
    exact ⟨[_, _], rest, _, rfl, .three (by omega) (by omega) (by omega) (by omega) hv⟩
  · obtain ⟨x, rest, rfl, hx, hl⟩ := exists_of_length_takeContinuation hl
    obtain ⟨y, rest, rfl, hy, hl⟩ := exists_of_length_takeContinuation hl
    obtain ⟨z, rest, rfl, hz, -⟩ := exists_of_length_takeContinuation hl
    have hxb : (0x80 ≤ x.toNat ∧ x.toNat ≤ 0xbf) ∧ (b.toNat = 0xf0 → 0x90 ≤ x.toNat) ∧
        (b.toNat = 0xf4 → x.toNat ≤ 0x8f) := by
      split_ifs at hx <;> simp only [UInt8.le_iff_toNat_le, UInt8.reduceToNat] at hx <;> omega
    obtain ⟨p, rfl, hp⟩ := exists_ofNat_add (b := b) (k := 240) (by omega)
    obtain ⟨q, rfl, hq⟩ := exists_ofNat_add (b := x) (k := 128) hxb.1.1
    obtain ⟨r, rfl, hr⟩ := exists_ofNat_add (b := y) (k := 128) hy.1
    obtain ⟨s, rfl, hs⟩ := exists_ofNat_add (b := z) (k := 128) hz.1
    have hru : (UInt8.ofNat (r + 128)).toNat ≤ 0xbf := hy.2
    have hsu : (UInt8.ofNat (s + 128)).toNat ≤ 0xbf := hz.2
    have hv : (262144 * p + 4096 * q + 64 * r + s).isValidChar := by
      unfold Nat.isValidChar
      omega
    exact ⟨[_, _, _], rest, _, rfl,
      .four (by omega) (by omega) (by omega) (by omega) (by omega) hv⟩

/-- Only the bytes of a character are decoded. -/
theorem exists_of_decodeFront (h : decodeFront b bs = (some c, n)) :
    ∃ tail rest k, bs = tail ++ rest ∧ tail.length = n ∧ Sequence b tail k ∧ c = Char.ofNat k := by
  obtain ⟨tail, rest, k, rfl, hs⟩ : ∃ tail rest k, bs = tail ++ rest ∧ Sequence b tail k := by
    rw [decodeFront] at h
    split_ifs at h with hlt
    · have hs := Sequence.one (UInt8.lt_iff_toNat_lt.mp hlt)
      rw [UInt8.ofNat_toNat] at hs
      exact ⟨[], bs, _, rfl, hs⟩
    cases hc : continuation? b with
    | none => simp [hc] at h
    | some bounds =>
      obtain ⟨m, lo, hi⟩ := bounds
      simp only [hc, Prod.mk.injEq, Option.ite_none_right_eq_some] at h
      exact exists_sequence_of_continuation hc h.1.1
  rw [hs.decode rest] at h
  cases h
  exact ⟨tail, rest, k, rfl, rfl, hs, rfl⟩

theorem decodePieces_cons {piece : Option Char} (h : decodeFront b bs = (piece, n)) :
    decodePieces (b :: bs) = piece :: decodePieces (bs.drop n) := by
  rw [decodePieces, h]

theorem decodePieces_toUtf8 (t : Text) : decodePieces (toUtf8 t) = t.map some := by
  induction t with
  | nil => rw [toUtf8_nil, decodePieces, List.map_nil]
  | cons c t ih =>
    obtain ⟨b, tail, hs, he⟩ := exists_encode c
    have hd := hs.decode (toUtf8 t)
    rw [Char.ofNat_toNat] at hd
    rw [toUtf8_cons, he, List.cons_append, decodePieces_cons hd, List.drop_left, ih, List.map_cons]

theorem eq_toUtf8_of_decodePieces (h : decodePieces bs = t.map some) : bs = toUtf8 t := by
  induction t generalizing bs with
  | nil =>
    cases bs with
    | nil => rfl
    | cons b bs => simp [decodePieces] at h
  | cons c t ih =>
    cases bs with
    | nil => simp [decodePieces] at h
    | cons b bs =>
      cases hd : decodeFront b bs with
      | mk piece n =>
        rw [decodePieces_cons hd, List.map_cons] at h
        obtain ⟨rfl, ht⟩ := List.cons.inj h
        obtain ⟨tail, rest, k, rfl, rfl, hs, rfl⟩ := exists_of_decodeFront hd
        rw [List.drop_left] at ht
        rw [toUtf8_cons, hs.encode, ih ht, List.cons_append]

/-- A byte list is read as a text exactly if it is the form of that text. -/
theorem ofUtf8?_eq_some_iff : ofUtf8? bs = some t ↔ bs = toUtf8 t := by
  rw [ofUtf8?, mapM_eq_some_iff, List.map_id]
  constructor
  · exact eq_toUtf8_of_decodePieces
  · rintro rfl
    exact decodePieces_toUtf8 t

/-- A text of characters of one byte each has as many bytes as characters. -/
theorem size_eq_length {t : Text} (h : ∀ c ∈ t, c.utf8Size = 1) : t.size = t.length := by
  induction t with
  | nil => rfl
  | cons c t ih =>
    rw [List.forall_mem_cons] at h
    rw [size_cons, h.1, ih h.2, List.length_cons, Nat.add_comm]

theorem length_toUtf8 (t : Text) : (toUtf8 t).length = t.size := by
  induction t with
  | nil => rfl
  | cons c t ih => rw [toUtf8_cons, List.length_append, ih, String.length_utf8EncodeChar, size_cons]

theorem newline_notMem_utf8EncodeChar (hc : c ≠ '\n') : 10 ∉ String.utf8EncodeChar c := by
  obtain ⟨b, tail, hs, he⟩ := exists_encode c
  rw [he]
  intro h
  apply hc
  rw [← Char.ofNat_toNat c, hs.eq_of_newline_mem h]

end Text

end LexCalc
