import LexCalc.Listing.Command
import LexCalc.Proofs.Listing.Json
import LexCalc.Proofs.Text.Quoted
import LexCalc.Proofs.Token.Reading

/-! What the text form of listings tells: each token has a line, each file ends with the line of the
end of its text, and with the trivia shown the texts themselves can be put together. -/
namespace LexCalc

/-- What comes before the first separator. -/
theorem append_cons_inj {c : Char} {s t x y : Text} (hs : c ∉ s) (ht : c ∉ t)
    (h : s ++ c :: x = t ++ c :: y) : s = t ∧ x = y := by
  have hp {u : Text} (hu : c ∉ u) : ∀ d ∈ u, decide (d ≠ c) = true := by
    intro d hd
    exact decide_eq_true (ne_of_mem_of_not_mem hd hu)
  have he (z : Text) : ∀ d ∈ (c :: z).head?, decide (d ≠ c) = false := by simp
  have hl := takeWhile_append_eq (hp hs) (he x)
  rw [h, takeWhile_append_eq (hp ht) (he y)] at hl
  subst hl
  exact ⟨rfl, (List.cons.inj (List.append_cancel_left h)).2⟩

theorem Kind.ne_of_mem_name {c : Char} {k : Kind} (h : c ∈ k.name.toList) : c ≠ ' ' ∧ c ≠ '\n' := by
  have hk : k.name.toList.all (fun c => c != ' ' && c != '\n') = true := by
    cases k <;> rfl
  simpa using List.all_eq_true.mp hk c h

namespace Record

/-- Records that end with the end of the text and have no other. -/
inductive Closed : List Record → Prop where
  | last {r : Record} (h : r.kind = .eof) : Closed [r]
  | more {r : Record} {rs : List Record} (h : r.kind ≠ .eof) (hr : Closed rs) : Closed (r :: rs)

variable {r s : Record} {rs ss : List Record} {source x y : Text} {showTrivia : Bool}

/-- What the line of a token tells. -/
def told (showTrivia : Bool) (r : Record) : Nat × Kind × Text × Text :=
  (r.start, r.kind, r.value, if showTrivia then r.trivia else [])

/-- A line is a line: the newline at its end is the only one. -/
theorem exists_line (showTrivia : Bool) (r : Record) :
    ∃ body, r.line showTrivia = body ++ ['\n'] ∧ '\n' ∉ body := by
  refine ⟨_, rfl, ?_⟩
  have hn : '\n' ∉ Text.decimal r.start :=
    fun h => ne_of_isDigit (isDigit_of_mem_decimal h) rfl rfl
  have hk : '\n' ∉ r.kind.name.toList := fun h => (Kind.ne_of_mem_name h).2 rfl
  have hv := Text.newline_notMem_quoted r.value
  have ht := Text.newline_notMem_quoted r.trivia
  cases showTrivia <;> simp [hn, hk, hv, ht]

/-- A line can be read up to its end, whatever comes after it. -/
theorem line_append_inj (h : r.line showTrivia ++ x = s.line showTrivia ++ y) :
    r.told showTrivia = s.told showTrivia ∧ x = y := by
  have hn (n : Nat) : ' ' ∉ Text.decimal n :=
    fun h => ne_of_isDigit (isDigit_of_mem_decimal h) rfl rfl
  have hk (k : Kind) : ' ' ∉ k.name.toList := fun h => (Kind.ne_of_mem_name h).1 rfl
  simp only [line, List.append_assoc, List.cons_append, List.nil_append] at h
  obtain ⟨hstart, h⟩ := append_cons_inj (hn _) (hn _) h
  obtain ⟨hkind, h⟩ := append_cons_inj (hk _) (hk _) h
  obtain ⟨hvalue, h⟩ := Text.quoted_append_inj h
  have hs : r.start = s.start := by
    rw [← decimalValue_decimal r.start, hstart, decimalValue_decimal]
  have hkn : r.kind = s.kind := Kind.name_injective (String.toList_inj.mp hkind)
  rw [told, told, hs, hkn, hvalue]
  cases showTrivia with
  | false =>
    obtain ⟨-, rfl⟩ := List.cons.inj h
    exact ⟨rfl, rfl⟩
  | true =>
    simp only [if_pos, List.append_assoc] at h
    obtain ⟨htrivia, h⟩ := Text.quoted_append_inj (List.append_cancel_left h)
    obtain ⟨-, rfl⟩ := List.cons.inj h
    rw [htrivia]
    exact ⟨rfl, rfl⟩

theorem Closed.exists_cons (h : Closed rs) : ∃ r ss, rs = r :: ss := by
  cases h with
  | last _ => exact ⟨_, _, rfl⟩
  | more _ _ => exact ⟨_, _, rfl⟩

theorem closed_finish (l : Lexer) (starts : List Nat) : Closed (l.finish.1.map (inLines starts)) := by
  induction l using Lexer.finish_induction with
  | last l h =>
    rw [Lexer.finish_of_eof h]
    exact .last h
  | more l h ih =>
    rw [Lexer.finish_of_ne_eof h]
    exact .more h ih

theorem closed_ofSource (h : ofSource source = .ok rs) : Closed rs := by
  rw [ofSource_eq] at h
  cases h
  exact closed_finish _ _

/-- The lines of a file end where its records end. -/
theorem lines_append_inj (hr : Closed rs) (hs : Closed ss)
    (h : rs.flatMap (line showTrivia) ++ x = ss.flatMap (line showTrivia) ++ y) :
    rs.map (told showTrivia) = ss.map (told showTrivia) ∧ x = y := by
  have hkind {r s : Record} (h : r.told showTrivia = s.told showTrivia) : r.kind = s.kind :=
    congrArg (fun t => t.2.1) h
  -- Lines that are alike tell the same kind, so both files end with the same line.
  induction hr generalizing ss with
  | @last r hk =>
    rw [List.flatMap_singleton] at h
    cases hs with
    | last hk' =>
      rw [List.flatMap_singleton] at h
      obtain ⟨ht, rfl⟩ := line_append_inj h
      rw [List.map_singleton, List.map_singleton, ht]
      exact ⟨rfl, rfl⟩
    | more hk' _ =>
      rw [List.flatMap_cons, List.append_assoc] at h
      exact absurd ((hkind (line_append_inj h).1).symm.trans hk) hk'
  | @more r rs hk hr ih =>
    rw [List.flatMap_cons, List.append_assoc] at h
    cases hs with
    | last hk' =>
      rw [List.flatMap_singleton] at h
      exact absurd ((hkind (line_append_inj h).1).trans hk') hk
    | more hk' hs =>
      rw [List.flatMap_cons, List.append_assoc] at h
      obtain ⟨ht, h⟩ := line_append_inj h
      obtain ⟨hts, rfl⟩ := ih hs h
      rw [List.map_cons, List.map_cons, ht, hts]
      exact ⟨rfl, rfl⟩

theorem text_eq (rs : List Record) :
    text rs = (rs.map (told true)).flatMap fun t => t.2.2.2 ++ t.2.2.1 := by
  rw [List.flatMap_map]
  rfl

theorem count_lines (showTrivia : Bool) (rs : List Record) :
    (rs.flatMap (line showTrivia)).count '\n' = rs.length := by
  induction rs with
  | nil => rfl
  | cons r rs ih =>
    obtain ⟨body, hr, hb⟩ := exists_line showTrivia r
    rw [List.flatMap_cons, List.count_append, ih, hr, List.count_append,
      List.count_eq_zero_of_not_mem hb, List.length_cons, List.count_singleton_self]
    omega

end Record

namespace Listing
variable {ls ms : List Listing} {paths : List Path} {sources others : List Text}
  {several showTrivia : Bool}

/-- What the text form of listings tells of each file. -/
def told (showTrivia : Bool) (ls : List Listing) : List (List (Nat × Kind × Text × Text)) :=
  ls.map fun l => l.records.map (Record.told showTrivia)

/-- The lines of a file, below a header if there are several files. -/
def lines (several showTrivia : Bool) (l : Listing) : Text :=
  (if several then l.header else []) ++ l.records.flatMap (Record.line showTrivia)

theorem text_eq (showTrivia : Bool) (ls : List Listing) :
    text showTrivia ls = ls.flatMap (lines (1 < ls.length) showTrivia) := by
  rw [text]
  congr 1
  funext l
  simp [lines]

/-- Of files with the same names the lines tell the same only if they are the same. -/
theorem told_eq
    (hp : List.Forall₂
      (fun l m => l.path = m.path ∧ Record.Closed l.records ∧ Record.Closed m.records) ls ms)
    (h : ls.flatMap (lines several showTrivia) = ms.flatMap (lines several showTrivia)) :
    told showTrivia ls = told showTrivia ms := by
  induction hp with
  | nil => rfl
  | @cons l m ls ms hlm _ ih =>
    obtain ⟨hpath, hl, hm⟩ := hlm
    have hh : l.header = m.header := by rw [header, header, hpath]
    rw [List.flatMap_cons, List.flatMap_cons, lines, lines, hh, List.append_assoc,
      List.append_assoc] at h
    obtain ⟨ht, h⟩ := Record.lines_append_inj hl hm (List.append_cancel_left h)
    have hts := ih h
    simp only [told, List.map_cons] at hts ⊢
    rw [ht, hts]

/-- The listings of files that hold some texts. -/
def ofTexts (paths : List Path) (sources : List Text) : List Listing :=
  (paths.zip sources).map fun f => ofText f.1 f.2

theorem mapM_ofSource (paths : List Path) (sources : List Text) :
    (paths.zip sources).mapM (fun f => ofSource f.1 f.2) = .ok (ofTexts paths sources) :=
  Record.mapM_eq_ok fun f _ => ofSource_eq f.1 f.2

theorem forall₂_ofTexts (hs : sources.length = paths.length) (ho : others.length = paths.length) :
    List.Forall₂
      (fun l m => l.path = m.path ∧ Record.Closed l.records ∧ Record.Closed m.records)
      (ofTexts paths sources) (ofTexts paths others) := by
  have hf : (paths.zip sources).map Prod.fst = (paths.zip others).map Prod.fst := by
    rw [List.map_fst_zip hs.ge, List.map_fst_zip ho.ge]
  rw [ofTexts, ofTexts, List.forall₂_map_left_iff, List.forall₂_map_right_iff]
  exact (forall₂_of_map_eq hf).imp fun f g h =>
    ⟨h, Record.closed_ofSource (Record.ofSource_eq f.2),
      Record.closed_ofSource (Record.ofSource_eq g.2)⟩

theorem told_eq_of_render (hs : sources.length = paths.length)
    (ho : others.length = paths.length)
    (h : render .text showTrivia (ofTexts paths sources) =
      render .text showTrivia (ofTexts paths others)) :
    told showTrivia (ofTexts paths sources) = told showTrivia (ofTexts paths others) := by
  have hf := forall₂_ofTexts hs ho
  rw [render, render, text_eq, text_eq, hf.length_eq] at h
  exact told_eq hf (Except.ok.inj h)

theorem texts_ofTexts (hs : sources.length = paths.length) :
    (ofTexts paths sources).map (fun l => Record.text l.records) = sources := by
  have ht : (fun l => Record.text l.records) ∘ (fun f : Path × Text => ofText f.1 f.2) = Prod.snd :=
    funext fun f => Record.text_of_ofSource (Record.ofSource_eq f.2)
  rw [ofTexts, List.map_map, ht, List.map_snd_zip hs.le]

theorem texts_eq_of_told (h : told true ls = told true ms) :
    ls.map (fun l => Record.text l.records) = ms.map fun l => Record.text l.records := by
  have ht (ls : List Listing) : ls.map (fun l => Record.text l.records) =
      (told true ls).map fun ts => ts.flatMap fun t => t.2.2.2 ++ t.2.2.1 := by
    rw [told, List.map_map]
    exact List.map_congr_left fun l _ => Record.text_eq l.records
  rw [ht, h, ← ht]

theorem places_eq_of_told (h : told showTrivia ls = told showTrivia ms) :
    ls.map (fun l => l.records.map fun r => (r.start, r.kind, r.value)) =
      ms.map fun l => l.records.map fun r => (r.start, r.kind, r.value) := by
  have ht (ls : List Listing) : ls.map (fun l => l.records.map fun r => (r.start, r.kind, r.value)) =
      (told showTrivia ls).map fun ts => ts.map fun t => (t.1, t.2.1, t.2.2.1) := by
    simp [told, Record.told]
  rw [ht, h, ← ht]

/-- Whatever is in a token, its line is one line, and a file has as many lines as tokens. With the
trivia shown, files of the same names have the same text form only if they hold the same texts.
Without, they still agree on where each token starts, on its kind and on its value. -/
theorem text_tells :
    (∀ showTrivia r, ∃ body, Record.line showTrivia r = body ++ ['\n'] ∧ '\n' ∉ body) ∧
    (∀ showTrivia path records, ∃ text, render .text showTrivia [⟨path, records⟩] = .ok text ∧
      text.count '\n' = records.length) ∧
    ∀ (paths : List Path) (sources others : List Text),
      sources.length = paths.length → others.length = paths.length →
      ∃ ls ms, (paths.zip sources).mapM (fun f => ofSource f.1 f.2) = .ok ls ∧
        (paths.zip others).mapM (fun f => ofSource f.1 f.2) = .ok ms ∧
        (render .text true ls = render .text true ms → sources = others) ∧
        (render .text false ls = render .text false ms →
          ls.map (fun l => l.records.map fun r => (r.start, r.kind, r.value)) =
            ms.map fun l => l.records.map fun r => (r.start, r.kind, r.value)) := by
  refine ⟨Record.exists_line, ?_, ?_⟩
  · intro showTrivia path records
    refine ⟨_, rfl, ?_⟩
    rw [text_eq, List.flatMap_singleton]
    exact Record.count_lines showTrivia records
  · intro paths sources others hs ho
    refine ⟨ofTexts paths sources, ofTexts paths others, mapM_ofSource paths sources,
      mapM_ofSource paths others, ?_, ?_⟩
    · intro h
      rw [← texts_ofTexts hs, texts_eq_of_told (told_eq_of_render hs ho h), texts_ofTexts ho]
    · intro h
      exact places_eq_of_told (told_eq_of_render hs ho h)

/-- Only with the trivia shown can a blank be told from another one. -/
theorem text_tells_tab :
    ∃ ls ms, ([[97]].zip [['x', ' ', 'y']]).mapM (fun f => ofSource f.1 f.2) = .ok ls ∧
      ([[97]].zip [['x', '\t', 'y']]).mapM (fun f => ofSource f.1 f.2) = .ok ms ∧
      render .text true ls ≠ render .text true ms ∧
      render .text false ls = render .text false ms ∧
      ls.map (fun l => l.records.map fun r => (r.start, r.kind, r.value)) =
        ms.map fun l => l.records.map fun r => (r.start, r.kind, r.value) := by
  obtain ⟨ls, ms, hl, hm, hshown, hhidden⟩ :=
    text_tells.2.2 [[97]] [['x', ' ', 'y']] [['x', '\t', 'y']] rfl rfl
  have hread : ∀ c, Blank c → Lexer.tokens ['x', c, 'y'] = Token.place 0
      [(.identifier, [], ['x']), (.identifier, [c], ['y']), (.eof, [], [])] := by
    intro c hc
    have hy : Reading ([c] ++ (['y'] ++ [])) [(.identifier, [c], ['y']), (.eof, [], [])] :=
      .more (.blank hc .nil) (.word (by decide) (by simp) (wordKind_eq_iff.mp (by decide)) (by simp))
        (by decide) (.last .nil)
    have hx : Reading ([] ++ (['x'] ++ ([c] ++ (['y'] ++ []))))
        [(.identifier, [], ['x']), (.identifier, [c], ['y']), (.eof, [], [])] :=
      .more .nil
        (.word (by decide) (by simp) (wordKind_eq_iff.mp (by decide))
          fun d hd => by cases hd; exact not_wordPart_of_blank hc) (by decide) hy
    exact Lexer.tokens_of_reading hx
  have hspace : ofText [97] ['x', ' ', 'y'] = ⟨[97],
      [⟨.identifier, ['x'], [], 0, 1, ⟨1, 1⟩⟩, ⟨.identifier, ['y'], [' '], 2, 3, ⟨1, 3⟩⟩,
        ⟨.eof, [], [], 3, 3, ⟨1, 4⟩⟩]⟩ := by
    rw [ofText, hread ' ' (by decide)]
    rfl
  have htab : ofText [97] ['x', '\t', 'y'] = ⟨[97],
      [⟨.identifier, ['x'], [], 0, 1, ⟨1, 1⟩⟩, ⟨.identifier, ['y'], ['\t'], 2, 3, ⟨1, 3⟩⟩,
        ⟨.eof, [], [], 3, 3, ⟨1, 4⟩⟩]⟩ := by
    rw [ofText, hread '\t' (by decide)]
    rfl
  have hls : ls = [ofText [97] ['x', ' ', 'y']] :=
    (Except.ok.inj ((mapM_ofSource _ _).symm.trans hl)).symm
  have hms : ms = [ofText [97] ['x', '\t', 'y']] :=
    (Except.ok.inj ((mapM_ofSource _ _).symm.trans hm)).symm
  have hsame : render .text false ls = render .text false ms := by
    simp [hls, hms, hspace, htab, render, text, Record.line]
  exact ⟨ls, ms, hl, hm, fun h => absurd (hshown h) (by decide), hsame, hhidden hsame⟩

end Listing

end LexCalc
