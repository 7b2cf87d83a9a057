import LexCalc.Proofs.Listing.Records
import LexCalc.Proofs.Token.Joining

/-! The listing of two texts with a newline between them. -/
namespace LexCalc
namespace Record

/-- A record further on and further down in another text; its column stays. -/
def moved (offset lines : Nat) (r : Record) : Record :=
  { r with
    start := offset + r.start
    stop := offset + r.stop
    place := ⟨r.place.line + lines, r.place.column⟩ }

theorem inLines_append_left {s : Text} {u : Token} (t : Text) (h : u ∈ Lexer.tokens s) :
    inLines (s ++ '\n' :: t).lineStarts u = inLines s.lineStarts u := by
  rw [inLines, LineIndex.placeIn_append_left ('\n' :: t) (start_le_size h), inLines]

theorem inLines_append_right (s t : Text) :
    inLines (s ++ '\n' :: t).lineStarts ∘ Token.moved (s.size + 1) =
      moved (s.size + 1) (LineIndex.ofText s).lineCount ∘ inLines t.lineStarts := by
  funext u
  have hp := LineIndex.placeIn_append_right s t u.span.start
  rw [Function.comp_apply, Function.comp_apply, inLines, LineIndex.lineCount_ofText, moved]
  exact congrArg (Record.mk u.kind u.value u.trivia _ _) hp

/-- If no string and no comment is left open in front of a newline, the records are those before it
and those behind it, the latter moved. What stands between the last token and the newline goes to
the first token behind it. -/
theorem ofSource_append_newline (s t : Text)
    (h : ∀ u ∈ Lexer.tokens s,
      u.kind ≠ .unterminatedStringLiteral ∧ u.kind ≠ .unterminatedComment) :
    ∃ front e first rest,
      ofSource s = .ok (front ++ [e]) ∧ e.kind = .eof ∧ ofSource t = .ok (first :: rest) ∧
        ofSource (s ++ '\n' :: t) =
          .ok (front ++
            ({ first with trivia := e.trivia ++ '\n' :: first.trivia } :: rest).map
              (moved (s.size + 1) (LineIndex.ofText s).lineCount)) := by
  have ho : ∀ u ∈ Lexer.tokens s, ¬ u.kind.isOpen := by
    intro u hu
    rw [Kind.isOpen_iff, not_or]
    exact (h u hu).symm
  obtain ⟨front, e, first, rest, hs, he, ht, hj⟩ := Lexer.tokens_append_newline s t ho
  have hfront : ∀ u ∈ front, inLines (s ++ '\n' :: t).lineStarts u = inLines s.lineStarts u := by
    intro u hu
    apply inLines_append_left
    rw [hs]
    exact List.mem_append_left _ hu
  refine ⟨front.map (inLines s.lineStarts), inLines s.lineStarts e, inLines t.lineStarts first,
    rest.map (inLines t.lineStarts), ?_, he, ?_, ?_⟩
  · rw [ofSource_eq, hs, List.map_append, List.map_singleton]
  · rw [ofSource_eq, ht, List.map_cons]
  · rw [ofSource_eq, hj, List.map_append, List.map_congr_left hfront, List.map_map,
      inLines_append_right, ← List.map_map, List.map_cons]
    rfl

theorem ofSource_append_newline_comment :
    ofSource ['x', '/', '/', '\n', 'y'] =
      .ok [⟨.identifier, ['x'], [], 0, 1, ⟨1, 1⟩⟩,
        ⟨.identifier, ['y'], ['/', '/', '\n'], 4, 5, ⟨2, 1⟩⟩, ⟨.eof, [], [], 5, 5, ⟨2, 2⟩⟩] := by
  have hx : Reading ([] ++ (['x'] ++ ['/', '/']))
      [(.identifier, [], ['x']), (.eof, ['/', '/'], [])] :=
    .more .nil
      (.word (by decide) (by simp) (wordKind_eq_iff.mp (by decide)) fun _ hd => by cases hd; decide)
      (by simp) (.last (@Gap.line _ [] [] (by simp) (by simp) .nil))
  have hy : Reading ([] ++ (['y'] ++ [])) [(.identifier, [], ['y']), (.eof, [], [])] :=
    .more .nil (.word (by decide) (by simp) (wordKind_eq_iff.mp (by decide)) (by simp)) (by simp)
      (.last .nil)
  have hxs : Lexer.tokens ['x', '/', '/'] = _ := Lexer.tokens_of_reading hx
  have hys : Lexer.tokens ['y'] = _ := Lexer.tokens_of_reading hy
  obtain ⟨front, e, first, rest, hs, -, ht, hj⟩ :=
    ofSource_append_newline ['x', '/', '/'] ['y'] (by rw [hxs]; decide)
  rw [ofSource_eq, hxs] at hs
  rw [ofSource_eq, hys] at ht
  have hs' : [_] ++ [_] = front ++ [e] := Except.ok.inj hs
  obtain ⟨hf, he⟩ := List.append_inj' hs' rfl
  cases hf
  cases he
  cases ht
  rw [LineIndex.lineCount_ofText] at hj
  exact hj

end Record

end LexCalc
