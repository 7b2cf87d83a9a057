import LexCalc.Listing.Render
import LexCalc.Proofs.Json.RoundTrip
import LexCalc.Proofs.Listing.Places
import LexCalc.Proofs.Text.Utf8
import LexCalc.Proofs.Token.Reading

/-! The JSON form of listings holds everything that is in them. -/
namespace LexCalc
open Json (Datum)

theorem Kind.ofName?_name (k : Kind) : ofName? k.name = some k := by
  cases k <;> decide +kernel

theorem Kind.name_injective : Function.Injective Kind.name := by
  intro k k' h
  have hk := ofName?_name k
  rw [h, ofName?_name] at hk
  exact (Option.some.inj hk).symm

namespace Record
variable {r s : Record} {source : Text} {rs : List Record}

/-- What the JSON form of a record says. -/
def datum (r : Record) : Datum :=
  .object
    [("kind".toList, .string r.kind.name.toList),
     ("value".toList, .string r.value),
     ("trivia".toList, .string r.trivia),
     ("start".toList, .number (.finite false r.start 0)),
     ("end".toList, .number (.finite false r.stop 0)),
     ("line".toList, .number (.finite false r.place.line 0)),
     ("column".toList, .number (.finite false r.place.column 0))]

theorem datum_json (r : Record) : r.json.datum = r.datum := by
  simp [json, Json.Value.datum, datum]

theorem datum_injective : Function.Injective datum := by
  intro r s h
  obtain ⟨kind, value, trivia, start, stop, line, column⟩ := r
  obtain ⟨kind', value', trivia', start', stop', line', column'⟩ := s
  simp only [datum, Datum.object.injEq, List.cons.injEq, Prod.mk.injEq, Datum.string.injEq,
    Datum.number.injEq, Decimal.finite.injEq, String.toList_inj, true_and, and_true] at h
  obtain ⟨hk, rfl, rfl, rfl, rfl, rfl, rfl⟩ := h
  rw [Kind.name_injective hk]

/-- Nothing of a text is missing in its records. -/
theorem text_of_ofSource (h : ofSource source = .ok rs) : text rs = source := by
  rw [ofSource_eq] at h
  cases h
  rw [text_inLines]
  exact Lexer.finish_flatMap (Lexer.ofText source)

end Record

namespace Listing
variable {l : Listing} {listings : List Listing} {v : Json.Value}
  {values : List Json.Value}

/-- What the JSON form of the listing of a file says. -/
def Shown (l : Listing) (d : Datum) : Prop :=
  ∃ path, l.path = Text.toUtf8 path ∧
    d = .object
      [("path".toList, .string path), ("tokens".toList, .array (l.records.map Record.datum))]

/-- A file that says the same is the same. -/
theorem leftUnique_shown : Relator.LeftUnique Shown := by
  rintro ⟨path, records⟩ ⟨path', records'⟩ d ⟨p, hp, hd⟩ ⟨p', hp', hd'⟩
  rw [hd] at hd'
  simp only [Datum.object.injEq, List.cons.injEq, Prod.mk.injEq, Datum.string.injEq,
    Datum.array.injEq, true_and, and_true] at hd'
  obtain ⟨rfl, hr⟩ := hd'
  rw [Listing.mk.injEq]
  exact ⟨hp.trans hp'.symm, Record.datum_injective.list_map hr⟩

theorem shown_of_json? (h : l.json? = some v) : Shown l v.datum := by
  obtain ⟨path, hp, hv⟩ := Option.bind_eq_some_iff.mp h
  refine ⟨path, Text.ofUtf8?_eq_some_iff.mp hp, ?_⟩
  have hr : Json.Value.datum ∘ Record.json = Record.datum := funext Record.datum_json
  rw [← Option.some.inj hv]
  simp [Json.Value.datum, hr]

theorem json?_eq_none_iff : l.json? = none ↔ ∀ path, l.path ≠ Text.toUtf8 path := by
  have hp (path : Text) : l.path ≠ Text.toUtf8 path ↔ ¬ Text.ofUtf8? l.path = some path :=
    not_congr Text.ofUtf8?_eq_some_iff.symm
  simp only [json?, hp, Option.bind_eq_bind, Option.bind_eq_none_iff, reduceCtorEq, imp_false]

theorem shown_of_mapM (h : listings.mapM json? = some values) :
    List.Forall₂ Shown listings (values.map Json.Value.datum) := by
  rw [List.forall₂_map_right_iff]
  exact (forall₂_of_map_eq (mapM_eq_some_iff.mp h)).imp fun l v => shown_of_json?

theorem render_json_eq (h : listings.mapM json? = some values) (showTrivia : Bool) :
    render .json showTrivia listings = .ok ((Json.Value.array values).write 0 ++ ['\n']) := by
  rw [render, h]

theorem exists_mapM_json? (h : ∀ l ∈ listings, ∃ path, l.path = Text.toUtf8 path) :
    ∃ values, listings.mapM json? = some values := by
  cases hm : listings.mapM json? with
  | none =>
    obtain ⟨l, hl, hj⟩ := mapM_eq_none_iff.mp hm
    obtain ⟨path, hp⟩ := h l hl
    exact absurd hp (json?_eq_none_iff.mp hj path)
  | some values => exact ⟨values, rfl⟩

/-- What JSON says of listings is all that is in them. -/
theorem ofText?_render {showTrivia : Bool} {text : Text}
    (h : render .json showTrivia listings = .ok text) :
    ∃ items, Datum.ofText? text = some (.array items) ∧ List.Forall₂ Shown listings items := by
  cases hm : listings.mapM json? with
  | none =>
    rw [render, hm] at h
    cases h
  | some values =>
    rw [render_json_eq hm] at h
    cases h
    refine ⟨values.map Json.Value.datum, ?_, shown_of_mapM hm⟩
    rw [Json.Value.ofText?_write, Json.Value.datum]

/-- Listings of files with readable names have one JSON text. Read back, it says of each file, in
their order, what its listing holds, and no other listings have that text. If a name is no text,
there is only an error. -/
theorem render_json (listings : List Listing) :
    ((∀ l ∈ listings, ∃ path, l.path = Text.toUtf8 path) →
      ∃ text items, (∀ showTrivia, render .json showTrivia listings = .ok text) ∧
        Datum.ofText? text = some (.array items) ∧ List.Forall₂ Shown listings items ∧
        (∀ showTrivia others, render .json showTrivia others = .ok text → others = listings) ∧
        ∀ l ∈ listings, ∀ source, Record.ofSource source = .ok l.records →
          Record.text l.records = source) ∧
    ((∃ l ∈ listings, ∀ path, l.path ≠ Text.toUtf8 path) →
      ∀ showTrivia, render .json showTrivia listings =
        .error (.json "path contains invalid UTF-8 characters")) := by
  constructor
  · intro hp
    obtain ⟨values, hm⟩ := exists_mapM_json? hp
    have hr := render_json_eq hm
    obtain ⟨items, hi, hs⟩ := ofText?_render (hr false)
    refine ⟨_, items, hr, hi, hs, ?_, fun l _ source => Record.text_of_ofSource⟩
    intro showTrivia others ho
    obtain ⟨items', hi', hs'⟩ := ofText?_render ho
    rw [hi] at hi'
    cases hi'
    exact List.left_unique_forall₂' leftUnique_shown hs' hs
  · rintro ⟨l, hl, hp⟩ showTrivia
    have hm := mapM_eq_none_iff.mpr ⟨l, hl, json?_eq_none_iff.mpr hp⟩
    rw [render, hm]

/-- The path and the tokens of a file with a newline in a string are read back, and its text is there
again. A path of a byte that begins no character has no JSON. -/
theorem render_json_accent :
    let source : Text := [' ', '"', '\n', '"']
    let l : Listing := ⟨Text.toUtf8 ['é'],
      [⟨.stringLiteral, ['"', '\n', '"'], [' '], 1, 4, ⟨1, 2⟩⟩, ⟨.eof, [], [], 4, 4, ⟨2, 2⟩⟩]⟩
    (∃ text, (∀ showTrivia, render .json showTrivia [l] = .ok text) ∧
      Datum.ofText? text = some (.array [.object [("path".toList, .string ['é']),
        ("tokens".toList, .array (l.records.map Record.datum))]]) ∧
      (∀ showTrivia others, render .json showTrivia others = .ok text → others = [l]) ∧
      Record.text l.records = source) ∧
    ∀ showTrivia, render .json showTrivia [l, ⟨[0xff], l.records⟩] =
      .error (.json "path contains invalid UTF-8 characters") := by
  intro source l
  have hsource : Record.ofSource source = .ok l.records := by
    have hread : Reading ([' '] ++ (['"', '\n', '"'] ++ []))
        [(.stringLiteral, [' '], ['"', '\n', '"']), (.eof, [], [])] :=
      .more (.blank (by decide) .nil) (@Lexeme.string ['\n'] [] (by decide)) (by decide) (.last .nil)
    have htokens : Lexer.tokens source = _ := Lexer.tokens_of_reading hread
    rw [Record.ofSource_eq, htokens]
    rfl
  have hbyte : ∀ path, [0xff] ≠ Text.toUtf8 path := by
    intro path hp
    have hd : Text.decodePieces [0xff] = none :: Text.decodePieces [] := Text.decodePieces_cons rfl
    rw [hp, Text.decodePieces_toUtf8] at hd
    cases path <;> simp at hd
  constructor
  · obtain ⟨text, items, hr, hi, hs, hu, ht⟩ := (render_json [l]).1 (by simpa using ⟨['é'], rfl⟩)
    refine ⟨text, hr, ?_, hu, ht l (by simp) source hsource⟩
    cases hs with
    | cons hshown hnil =>
      cases hnil
      obtain ⟨path, hp, rfl⟩ := hshown
      have hpath := Text.ofUtf8?_eq_some_iff.mpr hp
      rw [Text.ofUtf8?_eq_some_iff.mpr (rfl : l.path = Text.toUtf8 ['é'])] at hpath
      cases hpath
      exact hi
  · exact (render_json [l, ⟨[0xff], l.records⟩]).2 ⟨⟨[0xff], l.records⟩, by simp, hbyte⟩

end Listing

end LexCalc
