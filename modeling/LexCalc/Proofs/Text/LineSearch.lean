import LexCalc.Proofs.Text.Counter
import LexCalc.Proofs.Text.LineRanges
import LexCalc.Proofs.Text.Utf8

/-! The place of an offset as a scan of the bytes before it finds it. Beside the lookup stands one
by a search that tells a hit from a miss, with a check at every step that could leave the table. -/
namespace LexCalc

/-- What a search for an entry comes to: where it is, or where it would have to be put. -/
inductive SearchResult where
  | found (i : Nat)
  | missing (i : Nat)
  deriving DecidableEq, Repr

/-- The entries before place `lo` are smaller, and those from place `hi` on are larger. -/
def Bracketed (xs : List Nat) (x lo hi : Nat) : Prop :=
  ∀ j y, xs[j]? = some y → (j < lo → y < x) ∧ (hi ≤ j → x < y)

/-- The results that a search among increasing entries may come to. -/
def SearchResult.Fits (xs : List Nat) (x : Nat) : SearchResult → Prop
  | found i => xs[i]? = some x
  | missing i => i ≤ xs.length ∧ Bracketed xs x i i

namespace LineIndex
variable {source : Text} {r : SearchResult} {n : Nat}

/-- Searches by halving the places `lo` to `hi` that are still open, and stops at a hit. -/
def search (xs : Array Nat) (x lo hi : Nat) : SearchResult :=
  if lo < hi then
    let mid := lo + (hi - lo) / 2
    match xs[mid]? with
    | some y =>
      if y = x then .found mid
      else if y < x then search xs x (mid + 1) hi
      else search xs x lo mid
    | none => .missing lo
  else .missing lo
termination_by hi - lo

/-- The line, counted from zero, in which the search has ended: that of the entry, or the one before
the place where an entry is missing. -/
def line? : SearchResult → Option Nat
  | .found i => some i
  | .missing 0 => none
  | .missing (i + 1) => some i

/-- The place of an offset by the result of a search. There is none without a line to go back to, if
the table has no such line, or if the line starts behind the offset. -/
def placeAt? (ix : LineIndex) (offset : Nat) (r : SearchResult) : Option Place := do
  let i ← line? r
  let start ← ix.starts[i]?
  if offset < start then none else some ⟨i + 1, offset - start + 1⟩

section
variable {xs : List Nat} {x y mid lo hi : Nat} (hp : xs.Pairwise (· < ·))
  (hb : Bracketed xs x lo hi) (hm : xs[mid]? = some y)
include hp hb hm

theorem bracketed_above (hy : y < x) : Bracketed xs x (mid + 1) hi := by
  intro j z hz
  refine ⟨?_, (hb j z hz).2⟩
  intro hj
  rcases Nat.lt_or_eq_of_le (Nat.le_of_lt_succ hj) with hj | rfl
  · exact Nat.lt_trans (lt_of_getElem? hp hz hm hj) hy
  · obtain rfl : y = z := Option.some.inj (hm.symm.trans hz)
    exact hy

theorem bracketed_below (hy : x < y) : Bracketed xs x lo mid := by
  intro j z hz
  refine ⟨(hb j z hz).1, ?_⟩
  intro hj
  rcases Nat.lt_or_eq_of_le hj with hj | rfl
  · exact Nat.lt_trans hy (lt_of_getElem? hp hm hz hj)
  · obtain rfl : y = z := Option.some.inj (hm.symm.trans hz)
    exact hy

end

theorem fits_search {xs : Array Nat} {x lo hi : Nat} (hp : xs.toList.Pairwise (· < ·))
    (hb : Bracketed xs.toList x lo hi) (hle : lo ≤ hi) (hs : hi ≤ xs.size) :
    (search xs x lo hi).Fits xs.toList x := by
  fun_induction search xs x lo hi with
  | case1 lo hi hlt mid hm => exact Array.getElem?_toList.trans hm
  | case2 lo hi hlt mid y hm hne hy ih =>
    rw [← Array.getElem?_toList] at hm
    exact ih (bracketed_above hp hb hm hy) (by omega) hs
  | case3 lo hi hlt mid y hm hne hy ih =>
    rw [← Array.getElem?_toList] at hm
    exact ih (bracketed_below hp hb hm (by omega)) (by omega) (by omega)
  | case4 lo hi hlt mid hm =>
    have hmid : xs.size ≤ mid := Array.getElem?_eq_none_iff.mp hm
    omega
  | case5 lo hi hlt =>
    obtain rfl : lo = hi := by omega
    exact ⟨hs, hb⟩

theorem fits_search_starts (source : Text) (n : Nat) :
    (search (ofText source).starts n 0 (ofText source).starts.size).Fits source.lineStarts n := by
  have hp : (ofText source).starts.toList.Pairwise (· < ·) := by
    rw [starts_ofText]
    exact source.pairwise_lineStarts
  rw [← starts_ofText]
  refine fits_search hp ?_ (Nat.zero_le _) (Nat.le_refl _)
  intro j y hy
  have := (List.getElem?_eq_some_iff.mp hy).1
  rw [Array.length_toList] at this
  exact ⟨fun h => absurd h (Nat.not_lt_zero j), fun h => absurd this (Nat.not_lt.mpr h)⟩

/-- A search that has ended right has found the line of the offset. -/
theorem exists_inRange_of_fits (h : r.Fits source.lineStarts n) :
    ∃ i s, line? r = some i ∧ InRange source.lineStarts i s n := by
  cases r with
  | found i => exact ⟨i, n, rfl, inRange_start h⟩
  | missing i =>
    obtain ⟨hl, hb⟩ := h
    cases i with
    -- The first line starts at zero, so no offset is missing before it.
    | zero => exact absurd ((hb 0 0 rfl).2 (Nat.le_refl 0)) (Nat.not_lt_zero n)
    | succ i =>
      have hs := List.getElem?_eq_getElem (Nat.lt_of_succ_le hl)
      refine ⟨i, _, rfl, hs, Nat.le_of_lt ((hb i _ hs).1 (Nat.lt_succ_self i)), ?_⟩
      intro t ht
      exact (hb (i + 1) t ht).2 (Nat.le_refl _)

/-- No check refuses such a result. -/
theorem placeAt?_of_fits (hn : n ≤ source.size) (h : r.Fits source.lineStarts n) :
    ((ofText source).placeAt? n r).map .ok = some ((ofText source).place n) := by
  obtain ⟨i, s, hi, hr⟩ := exists_inRange_of_fits h
  have hs : (ofText source).starts[i]? = some s := by
    rw [← Array.getElem?_toList, starts_ofText, hr.start_eq]
  have hle := hr.start_le
  rw [place_of_inRange hn hr, placeAt?, hi]
  simp [hs, hle]

/-- A byte as a character of one byte, which tells no more than whether it is a newline. -/
def ofByte (b : UInt8) : Char := if b = 10 then '\n' else ' '

theorem ofByte_eq_newline_iff {b : UInt8} : ofByte b = '\n' ↔ b = 10 := by
  unfold ofByte
  split_ifs with hb
  · exact iff_of_true rfl hb
  · exact iff_of_false (by decide) hb

theorem utf8Size_ofByte (b : UInt8) : (ofByte b).utf8Size = 1 := by
  unfold ofByte
  split_ifs <;> rfl

theorem size_map_ofByte (bs : List UInt8) : Text.size (bs.map ofByte) = bs.length := by
  have h : ∀ c ∈ bs.map ofByte, c.utf8Size = 1 := by
    intro c hc
    obtain ⟨b, -, rfl⟩ := List.mem_map.mp hc
    exact utf8Size_ofByte b
  rw [Text.size_eq_length h, List.length_map]

/-- The lines of a text are those of its bytes. -/
theorem newlineEnds_bytes (t : Text) (k : Nat) :
    Text.newlineEnds k ((Text.toUtf8 t).map ofByte) = t.newlineEnds k := by
  induction t generalizing k with
  | nil => rfl
  | cons c t ih =>
    rw [Text.toUtf8_cons, List.map_append, Text.newlineEnds_append, size_map_ofByte,
      String.length_utf8EncodeChar, ih, Text.newlineEnds]
    by_cases hc : c = '\n'
    · subst hc
      rfl
    · have hn : '\n' ∉ (String.utf8EncodeChar c).map ofByte := by
        intro h
        obtain ⟨b, hb, he⟩ := List.mem_map.mp h
        exact Text.newline_notMem_utf8EncodeChar hc (ofByte_eq_newline_iff.mp he ▸ hb)
      rw [Text.newlineEnds_of_notMem hn, if_neg hc]
      rfl

/-- A counter that walks over bytes has counted the newlines, and the bytes since the last one. -/
theorem place_walk_bytes (bs : List UInt8) :
    (Counter.walk (bs.map ofByte)).place =
      ⟨bs.count 10 + 1, (bs.reverse.takeWhile (· ≠ 10)).length + 1⟩ := by
  induction bs using List.reverseRecOn with
  | nil => rfl
  | append_singleton bs b ih =>
    rw [List.map_append, List.map_singleton, Counter.walk_concat, Counter.step, ih,
      utf8Size_ofByte]
    by_cases hb : b = 10
    · rw [if_pos (ofByte_eq_newline_iff.mpr hb)]
      simp [hb]
    · rw [if_neg (ofByte_eq_newline_iff.not.mpr hb)]
      simp [hb]

/-- An offset has the place that the counter has come to behind as many bytes. -/
theorem placeIn_eq_walk (hn : n ≤ source.size) :
    placeIn source.lineStarts n =
      (Counter.walk (((Text.toUtf8 source).take n).map ofByte)).place := by
  have hb : Text.lineStarts ((Text.toUtf8 source).map ofByte) = source.lineStarts :=
    congrArg (0 :: ·) (newlineEnds_bytes source 0)
  have hl : Text.size (((Text.toUtf8 source).take n).map ofByte) = n := by
    rw [size_map_ofByte, List.length_take, Text.length_toUtf8, Nat.min_eq_left hn]
  rw [← hb, ← placeIn_size, hl, ← List.take_append_drop n (Text.toUtf8 source), List.map_append,
    placeIn_append_left _ (Nat.le_of_eq hl.symm)]
  simp

/-- Every offset up to the size of the text has a place, also one inside a character: the line is
one more than the number of newlines among the bytes before it, the column one more than the number
of bytes since the last of them. A search among the line starts finds it by halving, and whatever
result fits its contract, that is no entry missing before the first one, and leads to the same place
without a look outside the table or a difference below zero. -/
theorem place_scanned (source : Text) (n : Nat) :
    let ix := ofText source
    let bytes := Text.toUtf8 source
    let passed := bytes.take n
    (bytes.length < n → ix.place n = .error (.offsetOutOfBounds bytes.length n)) ∧
    (n ≤ bytes.length → ix.place n =
      .ok ⟨passed.count 10 + 1, (passed.reverse.takeWhile (· ≠ 10)).length + 1⟩) ∧
    (search ix.starts n 0 ix.starts.size).Fits ix.starts.toList n ∧
    ∀ r, SearchResult.Fits ix.starts.toList n r → r ≠ .missing 0 ∧
      (n ≤ bytes.length → (ix.placeAt? n r).map .ok = some (ix.place n)) := by
  intro ix bytes passed
  have hl : bytes.length = source.size := Text.length_toUtf8 source
  have hs : ix.starts.toList = source.lineStarts := starts_ofText source
  rw [hl, hs]
  refine ⟨?_, ?_, fits_search_starts source n, ?_⟩
  · intro hn
    rw [place, size_ofText, if_pos hn]
  · intro hn
    rw [place_eq hn, placeIn_eq_walk hn, place_walk_bytes]
  · intro r hr
    refine ⟨?_, fun hn => placeAt?_of_fits hn hr⟩
    rintro rfl
    obtain ⟨i, s, hi, -⟩ := exists_inRange_of_fits hr
    cases hi

end LineIndex
end LexCalc
