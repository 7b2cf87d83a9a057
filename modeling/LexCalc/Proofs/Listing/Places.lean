import LexCalc.Proofs.Listing.Records
import LexCalc.Proofs.Text.Counter

/-! Where the tokens of a listing stand, told by a counter that walks over their characters. -/
namespace LexCalc
namespace Record
variable {source : Text}

/-- The token that a record is made of. -/
def token (r : Record) : Token := ⟨r.kind, r.trivia, r.value, ⟨r.start, r.stop⟩⟩

/-- What some records hold of the text, one after another. -/
def text (rs : List Record) : Text := rs.flatMap fun r => r.trivia ++ r.value

theorem text_inLines (starts : List Nat) (ts : List Token) :
    text (ts.map (inLines starts)) = ts.flatMap fun t => t.trivia ++ t.value := by
  rw [text, List.flatMap_map]
  rfl

/-- The counter that has passed all earlier tokens and a token's trivia stands where the token
starts. -/
theorem walk_of_tokens {front back : List Token} {t : Token}
    (h : Lexer.tokens source = front ++ t :: back) :
    Counter.walk ((front.flatMap fun u => u.trivia ++ u.value) ++ t.trivia) =
      ⟨t.span.start, LineIndex.placeIn source.lineStarts t.span.start⟩ := by
  have hstart : t.span.start =
      0 + Text.size (front.flatMap fun u => u.trivia ++ u.value) + t.trivia.size :=
    Lexer.start_of_finish (l := Lexer.ofText source) h
  have hsource : (Lexer.tokens source).flatMap (fun u => u.trivia ++ u.value) = source :=
    Lexer.finish_flatMap (Lexer.ofText source)
  -- The source is what the counter has passed and then the rest, from the token's value on.
  rw [h, List.flatMap_append, List.flatMap_cons, List.append_assoc t.trivia,
    ← List.append_assoc] at hsource
  rw [Nat.zero_add, ← Text.size_append] at hstart
  generalize (front.flatMap fun u => u.trivia ++ u.value) ++ t.trivia = s at *
  subst hsource
  rw [hstart, LineIndex.placeIn_append_left _ (Nat.le_refl _), LineIndex.placeIn_size,
    ← Counter.offset_walk]

/-- Every text has a listing. It has one record for each token up to the first end of the text,
which comes last; its records hold the whole text; and each of them starts at the offset, on the
line and in the column of a counter that has passed all characters before it. -/
theorem ofSource_counted (source : Text) :
    ∃ front e, ofSource source = .ok (front ++ [e]) ∧
      e.kind = .eof ∧ (∀ r ∈ front, r.kind ≠ .eof) ∧
      (front ++ [e]).map token = (List.range (front.length + 1)).map (Lexer.nth source) ∧
      text (front ++ [e]) = source ∧
      ∀ before r after, front ++ [e] = before ++ r :: after →
        Counter.walk (text before ++ r.trivia) = ⟨r.start, r.place⟩ := by
  obtain ⟨n, hm, hn, he⟩ := Lexer.finish_eq_map (Lexer.ofText source)
  have ht : Lexer.tokens source = (List.range (n + 1)).map (Lexer.nth source) := hm
  have hr : (Lexer.tokens source).map (inLines source.lineStarts) =
      (List.range n).map (inLines source.lineStarts ∘ Lexer.nth source) ++
        [inLines source.lineStarts (Lexer.nth source n)] := by
    rw [ht, List.range_succ, List.map_append, List.map_append, List.map_map]
    rfl
  refine ⟨(List.range n).map (inLines source.lineStarts ∘ Lexer.nth source),
    inLines source.lineStarts (Lexer.nth source n), ?_, he, ?_, ?_, ?_, ?_⟩
  · rw [← hr]
    exact ofSource_eq source
  · intro r hmem
    obtain ⟨k, hk, rfl⟩ := List.mem_map.mp hmem
    exact hn k (List.mem_range.mp hk)
  · rw [← hr, List.length_map, List.length_range, ← ht, List.map_map]
    exact List.map_id _
  · rw [← hr, text_inLines]
    exact Lexer.finish_flatMap (Lexer.ofText source)
  · intro before r after h
    rw [← hr] at h
    obtain ⟨front, rest, hf, rfl, hrest⟩ := List.map_eq_append_iff.mp h
    obtain ⟨t, back, rfl, rfl, rfl⟩ := List.map_eq_cons_iff.mp hrest
    rw [text_inLines]
    exact walk_of_tokens hf

end Record

end LexCalc
